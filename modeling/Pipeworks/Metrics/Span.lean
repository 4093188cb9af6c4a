import Pipeworks.Host
/-!
# Spans

A span measures a named operation.
-/

namespace Pipeworks

structure Span where
  name : String
  startedAt : Nanos

namespace Span
variable {ω : Type} [Host ω]

def start (name : String) (w : ω) : Span := ⟨name, Host.now w⟩

def elapsed (s : Span) (w : ω) : Nanos := Host.now w - s.startedAt

end Span
end Pipeworks
