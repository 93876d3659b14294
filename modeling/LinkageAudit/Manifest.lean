import LinkageAudit.Target

/-!
# Built-in manifest

The targets and the build directory that apply when none are configured.
-/

namespace LinkageAudit

/-- The public prefix of a component's own files. -/
def Component.publicPrefix : Component → String
  | main => "termpaint_"
  | integration => "termpaintx_"

namespace Manifest

/-- The directory that the targets lie in. -/
def standardDirectory : Path := ⟨"_build/termpaint@sta"⟩

/-- The targets. The rescue file is reached through one private symbol only, which is its whole
public prefix. -/
def standard : List Target :=
  [⟨⟨"termpaint.c.o"⟩, .main, Component.main.publicPrefix⟩,
    ⟨⟨"termpaint_event.c.o"⟩, .main, Component.main.publicPrefix⟩,
    ⟨⟨"termpaint_input.c.o"⟩, .main, Component.main.publicPrefix⟩,
    ⟨⟨"termpaintx.c.o"⟩, .integration, Component.integration.publicPrefix⟩,
    ⟨⟨"ttyrescue.c.o"⟩, .integration, "termpaintp_rescue_embedded"⟩]

end Manifest

end LinkageAudit
