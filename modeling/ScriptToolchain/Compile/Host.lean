import ScriptToolchain.Code.Function

/-!
# Hosts

A host gives out ids while a unit is compiled and takes its functions. Its
state is a value, and every call answers the state that follows.
-/

namespace ScriptToolchain

/-- What the compiler asks of the state `σ` of a host. -/
class Host (σ : Type) where
  /-- A unit starts; the flag tells a debug build. -/
  started : Bool → σ → σ
  /-- A unit ends with so many errors. -/
  ended : Nat → σ → σ
  /-- A new function id. -/
  functionId : σ → UInt64 × σ
  /-- The id of a symbol. -/
  symbolId : String → σ → UInt64 × σ
  /-- The id of a string constant. -/
  stringId : String → σ → UInt64 × σ
  /-- Takes a finished function, or refuses it for a reason. -/
  deliver : CompiledFunction → σ → Except String Unit × σ

end ScriptToolchain
