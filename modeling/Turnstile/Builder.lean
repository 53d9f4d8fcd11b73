import Turnstile.Site

/-! Setting up a site from those of its parts that are given. -/

namespace Turnstile

structure Builder where
  config : AdmissionConfig := {}
  sink? : Option Sink := none
  clock? : Option Clock := none

namespace Builder

/-- Decisions are logged, and time is real, unless the builder was told otherwise. -/
def build? (builder : Builder) : Except SetupError (Site Sink) :=
  Site.ofParts? builder.config (builder.sink?.getD .log)
    (builder.clock?.elim .system TimeSource.manual)

def text (builder : Builder) : String :=
  Text.labelled "AdmissionControllerBuilder"
    [("config", builder.config.text), ("custom_sink", toString builder.sink?.isSome),
      ("custom_clock", toString builder.clock?.isSome)]

end Builder

end Turnstile
