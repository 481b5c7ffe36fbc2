import ScriptToolchain.Compile.Host

/-!
# Scripted hosts

A host in front of another one that keeps a log of what it is asked. The first
function ids it gives out and the functions it refuses are laid down before.
-/

namespace ScriptToolchain

/-- What a host was asked, and the id that it gave. -/
inductive HostCall where
  | started (debug : Bool)
  | ended (errors : Nat)
  | functionId (id : UInt64)
  | symbolId (name : String) (id : UInt64)
  | stringId (text : String) (id : UInt64)
  | deliver (id : UInt64)
deriving Repr, DecidableEq

/-- A host that follows a script in front of the host `inner`. -/
structure ScriptedHost (σ : Type) where
  inner : σ
  /-- The next function ids; after them the ids come from `inner`. -/
  ids : List UInt64 := []
  /-- The functions that are refused. -/
  refused : List UInt64 := []
  /-- What it was asked, the latest first. -/
  latest : List HostCall := []

namespace ScriptedHost

variable {σ : Type}

/-- What a refused function is told. -/
def refusal : String :=
  "rejected by host"

/-- What the host was asked, in order. -/
def calls (h : ScriptedHost σ) : List HostCall :=
  h.latest.reverse

/-- A call written down. -/
def log (h : ScriptedHost σ) (call : HostCall) : ScriptedHost σ :=
  { h with latest := call :: h.latest }

/-- The next function id: from the script while it has one. -/
def nextFunctionId [Host σ] (h : ScriptedHost σ) : UInt64 × ScriptedHost σ :=
  match h.ids with
  | id :: ids => (id, { h with ids })
  | [] =>
    let (id, inner) := Host.functionId h.inner
    (id, { h with inner })

instance [Host σ] : Host (ScriptedHost σ) where
  started debug h := { h with inner := Host.started debug h.inner }.log (.started debug)
  ended errors h := { h with inner := Host.ended errors h.inner }.log (.ended errors)
  functionId h :=
    let (id, h) := h.nextFunctionId
    (id, h.log (.functionId id))
  symbolId name h :=
    let (id, inner) := Host.symbolId name h.inner
    (id, { h with inner }.log (.symbolId name id))
  stringId text h :=
    let (id, inner) := Host.stringId text h.inner
    (id, { h with inner }.log (.stringId text id))
  deliver f h :=
    let h := h.log (.deliver f.id)
    if h.refused.contains f.id then (.error refusal, h)
    else
      let (answer, inner) := Host.deliver f h.inner
      (answer, { h with inner })

end ScriptedHost

end ScriptToolchain
