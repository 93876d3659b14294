import LinkageAudit.Event

/-!
# Traced computations

A computation that reads files and may fail, as a value: the events on its way, in order, and its
result. Nothing is hidden, so two runs can be compared event by event.

* `Traced.bind`: the events of the first part come first; a failure ends the computation.
-/

namespace LinkageAudit

/-- Events in order, then a result or an error. -/
structure Traced (ε α : Type) where
  events : List Event
  result : Except ε α

namespace Traced

variable {ε ε' α β : Type}

/-- Succeeds without any event. -/
protected def pure (a : α) : Traced ε α := ⟨[], .ok a⟩

/-- Goes on with the result of `x`, if there is one. -/
protected def bind (x : Traced ε α) (f : α → Traced ε β) : Traced ε β :=
  match x.result with
  | .ok a => ⟨x.events ++ (f a).events, (f a).result⟩
  | .error e => ⟨x.events, .error e⟩

instance : Monad (Traced ε) where
  pure := Traced.pure
  bind := Traced.bind

/-- One event. -/
def emit (e : Event) : Traced ε PUnit := ⟨[e], .ok ⟨⟩⟩

/-- A result without any event. -/
def ofExcept (r : Except ε α) : Traced ε α := ⟨[], r⟩

/-- The same computation with its error put in other words. -/
def mapError (f : ε → ε') (x : Traced ε α) : Traced ε' α := ⟨x.events, x.result.mapError f⟩

/-- The object files opened on the way, in order. -/
def opened (x : Traced ε α) : List Path := x.events.filterMap Event.opened?

@[simp] theorem events_pure (a : α) : (pure a : Traced ε α).events = [] := rfl

@[simp] theorem result_pure (a : α) : (pure a : Traced ε α).result = .ok a := rfl

@[simp] theorem events_emit (e : Event) : (emit e : Traced ε PUnit).events = [e] := rfl

@[simp] theorem result_emit (e : Event) : (emit e : Traced ε PUnit).result = .ok ⟨⟩ := rfl

@[simp] theorem events_ofExcept (r : Except ε α) : (ofExcept r).events = [] := rfl

@[simp] theorem result_ofExcept (r : Except ε α) : (ofExcept r).result = r := rfl

@[simp] theorem events_mapError (f : ε → ε') (x : Traced ε α) :
    (x.mapError f).events = x.events := rfl

@[simp] theorem result_mapError (f : ε → ε') (x : Traced ε α) :
    (x.mapError f).result = x.result.mapError f := rfl

theorem bind_of_ok {x : Traced ε α} {a : α} (h : x.result = .ok a) (f : α → Traced ε β) :
    x >>= f = ⟨x.events ++ (f a).events, (f a).result⟩ := by
  change Traced.bind x f = _
  rw [Traced.bind, h]

theorem bind_of_error {x : Traced ε α} {e : ε} (h : x.result = .error e) (f : α → Traced ε β) :
    x >>= f = ⟨x.events, .error e⟩ := by
  change Traced.bind x f = _
  rw [Traced.bind, h]

end Traced

end LinkageAudit
