/-
A proxy command: the template's placeholders are replaced by the host, the port and the
user of the connection, and a shell reads the result. The values are put in as they are,
so the shell takes them as text only where it would take each of their characters so.
-/
import Opensesh.Shell
import Opensesh.Target

namespace Opensesh.ProxyCommand

open List
open Shell Target

section

variable {command host user : List Char} {port : UInt16}

@[simp] theorem char_comp_lit : Symbol.char ∘ Symbol.lit = id := rfl

end

end Opensesh.ProxyCommand
