import TwoPhaseStore.Duration
import TwoPhaseStore.Toml.Reader

/-!
The settings of a store: how long it waits for a lock.  They come from a TOML document that has at
most the entry `lock_timeout_ms`, or from a duration.  A document with any other entry is refused,
the first wrong one being the reason.
-/

namespace TwoPhaseStore

structure Config where
  lockTimeout : Duration
deriving DecidableEq, Repr

/-- Why a document gives no settings. -/
inductive ConfigError where
  | malformed
  | unfit (why : Mismatch)
deriving DecidableEq, Repr

namespace Config

def default : Config := ⟨.ofMillis 100⟩

/-- The name of the one entry. -/
def timeoutName : String := "lock_timeout_ms"

/-- A number of milliseconds. -/
def timeoutOf : Toml → Except Mismatch Duration
  | .integer n => if 0 ≤ n then .ok (.ofMillis n.toNat) else .error (.outOfRange n .unsigned)
  | v => .error (.wrongType v.found .unsigned)

/-- Takes up one entry of a document. -/
def add (c : Config) (entry : String × Toml) : Except Mismatch Config :=
  if entry.1 = timeoutName then (timeoutOf entry.2).map fun d => { c with lockTimeout := d }
  else .error (.unknownField entry.1 timeoutName)

/-- The settings of a document; without entries they are the default. -/
def ofEntries (es : Toml.Entries) : Except Mismatch Config := es.foldlM add default

def ofToml (text : String) : Except ConfigError Config :=
  match Toml.read text with
  | .error .malformed => .error .malformed
  | .ok es => (ofEntries es).mapError .unfit

/-- Where settings come from in the first place. -/
inductive Source where
  | standard
  | duration (d : Duration)
  | toml (text : String)

/-- Settings from a source, with the timeout set anew by each further duration in turn. -/
def load (source : Source) (further : List Duration) : Except ConfigError Config := do
  let c ← match source with
    | .standard => .ok default
    | .duration d => .ok ⟨d⟩
    | .toml text => ofToml text
  return further.foldl (fun c d => { c with lockTimeout := d }) c

end Config

end TwoPhaseStore
