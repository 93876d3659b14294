import LinkageAudit.Policy

/-!
# Standard policy

The lists that apply without any configuration.
-/

namespace LinkageAudit.Policy

/-- C standard functions, interfaces common to all kernels, and what a C library or compiler puts
in their place: the `_chk` and `64` variants and the offset table. -/
def standardCore : List String :=
  ["_GLOBAL_OFFSET_TABLE_", "calloc", "free", "malloc", "memcmp", "memcpy", "__memcpy_chk",
    "memmove", "__memmove_chk", "realloc", "sprintf", "__sprintf_chk", "strchr", "strcmp",
    "strlen", "strstr", "snprintf", "__snprintf_chk", "vsnprintf", "__vsnprintf_chk", "abort",
    "strdup", "strndup", "printf", "__printf_chk", "exit", "fopen64", "fputs", "fputc", "fclose",
    "fcntl64"]

/-- Operating system interfaces: terminals, signals, files, processes and the environment. -/
def standardExtended : List String :=
  ["__errno_location", "clock_gettime", "close", "fcntl", "isatty", "open", "open64", "poll",
    "read", "sigaction", "sigfillset", "tcgetattr", "tcsetattr", "write", "ioctl", "getenv",
    "sigprocmask", "select", "tcgetpgrp", "getpgrp", "environ", "pipe2",
    "posix_spawn_file_actions_addclose", "posix_spawn_file_actions_adddup2",
    "posix_spawn_file_actions_destroy", "posix_spawn_file_actions_init",
    "posix_spawnattr_destroy", "posix_spawnattr_getsigdefault", "posix_spawnattr_init",
    "posix_spawnattr_setflags", "posix_spawnp"]

/-- Private symbols for tests, data sets and references between files. -/
def standardExported : List String :=
  ["termpaintp_test", "termpaintp_input_selfcheck", "termpaintp_input_dump_table",
    "termpaintp_rescue_embedded"]

/-- The policy that applies without any configuration. -/
def standard : Policy :=
  Policy.empty
    |>.extend .core standardCore
    |>.extend .extended standardExtended
    |>.extend .exported standardExported

end LinkageAudit.Policy
