import ScriptToolchain.Proofs.Machine
import ScriptToolchain.Proofs.Positions

/-!
# Running structured code

`Block.Exec` runs a block without addresses: it says how the block is left and
with which stack and store. The machine does the same with the placed block. A
run of a block is a run of the machine up to where the block is left, and the
machine cannot halt from the start of a block on unless the block is left; a
round of a loop takes at least one instruction, which is what ends the search.
-/

namespace ScriptToolchain.Compile

open Machine

variable {V S : Type}

/-- How a block is left, with the stack and the store there. -/
inductive Out (V S : Type) where
  | fall (stack : List V) (store : S)
  | jump (j : Jump) (stack : List V) (store : S)
  | halt (value : V) (store : S)

/-- What comes of one round of a loop. -/
inductive Turn (V S : Type) where
  | again (stack : List V) (store : S)
  | leave (out : Out V S)

/-- Rounds one after the other, up to one that leaves the loop. -/
inductive Repeats (round : List V → S → Turn V S → Prop) : List V → S → Out V S → Prop where
  | leave {stack s out} (h : round stack s (.leave out)) : Repeats round stack s out
  | again {stack s stack' s' out} (h : round stack s (.again stack' s'))
      (hrest : Repeats round stack' s' out) : Repeats round stack s out

/-- What code with this outcome does together with the code behind it. -/
def Out.andThen (o : Out V S) (next : List V → S → Out V S → Prop) (out : Out V S) : Prop :=
  match o with
  | .fall stack s => next stack s out
  | o => out = o

/-- What the outcome of the tail of a loop makes of the round. -/
def Out.inTail (o : Out V S) (D : Domain V S) (back : Opcode) (turn : Turn V S) : Prop :=
  match o with
  | .fall stack s => ∃ taken stack', test D back stack = some (taken, stack') ∧
      turn = if taken then .again stack' s else .leave (.fall stack' s)
  | o => turn = .leave o

/-- What the outcome of the body of a loop makes of the round. -/
def Out.inBody (o : Out V S) (resume : Resume) (tail : List V → S → Turn V S → Prop)
    (turn : Turn V S) : Prop :=
  match o with
  | .fall stack s => tail stack s turn
  | .jump .breakLoop stack s => turn = .leave (.fall stack s)
  | .jump .continueLoop stack s =>
    match resume with
    | .top => turn = .again stack s
    | .tail => tail stack s turn
  | .halt v s => turn = .leave (.halt v s)

/-- The tail of a loop and the branch back to its top. -/
def Tail (D : Domain V S) (tail : List V → S → Out V S → Prop) (back : Opcode) (stack : List V)
    (s : S) (turn : Turn V S) : Prop :=
  ∃ o, tail stack s o ∧ o.inTail D back turn

/-- One round of a loop. -/
def Round (D : Domain V S) (body tail : List V → S → Out V S → Prop) (back : Opcode)
    (resume : Resume) (stack : List V) (s : S) (turn : Turn V S) : Prop :=
  ∃ o, body stack s o ∧ o.inBody resume (Tail D tail back) turn

namespace Block

/-- The block, started with this stack and store, is left this way. -/
def Exec (p : Program) (D : Domain V S) : Block → List V → S → Out V S → Prop
  | .empty => fun stack s out => out = .fall stack s
  | .mark _ => fun stack s out => out = .fall stack s
  | .instr op x => fun stack s out =>
    match act p D op x stack s with
    | some (.next stack s) => out = .fall stack s
    | some (.halt v s) => out = .halt v s
    | _ => False
  | .seq a b => fun stack s out => ∃ o, a.Exec p D stack s o ∧ o.andThen (b.Exec p D) out
  | .skip op body => fun stack s out => ∃ taken stack', test D op stack = some (taken, stack') ∧
      if taken then out = .fall stack' s else body.Exec p D stack' s out
  | .either yes no => fun stack s out =>
    ∃ taken stack', test D .branchZero stack = some (taken, stack') ∧
      if taken then no.Exec p D stack' s out else yes.Exec p D stack' s out
  | .loop body tail back resume => Repeats (Round D (body.Exec p D) (tail.Exec p D) back resume)
  | .jump op j => fun stack s out => ∃ taken stack', test D op stack = some (taken, stack') ∧
      out = if taken then .jump j stack' s else .fall stack' s

variable {p : Program} {D : Domain V S} {b : Block} {stack stack' : List V} {s s' : S}
  {out : Out V S} {j : Jump}

/-- No jump leaves a closed block. -/
theorem Closed.not_jump (hb : b.Closed) : ¬b.Exec p D stack s (.jump j stack' s') := by
  intro h
  induction b generalizing stack s with
  | empty | mark => cases h
  | instr op x =>
    simp only [Exec] at h
    split at h <;> cases h
  | jump => exact hb
  | seq a b iha ihb =>
    obtain ⟨o, ha, hrest⟩ := h
    cases o with
    | fall => exact ihb hb.2 hrest
    | jump =>
      cases hrest
      exact iha hb.1 ha
    | halt => cases hrest
  | skip op body ih =>
    obtain ⟨taken, _, -, hrest⟩ := h
    cases taken with
    | true => cases hrest
    | false => exact ih hb hrest
  | either yes no ihy ihn =>
    obtain ⟨taken, _, -, hrest⟩ := h
    cases taken with
    | true => exact ihn hb.2 hrest
    | false => exact ihy hb.1 hrest
  | loop body tail back resume _ iht =>
    -- the jumps of the body end at the loop, so only those of the tail can leave it
    generalize hout : Out.jump j stack' s' = out at h
    have htail {stack : List V} {s : S} :
        ¬Tail D (tail.Exec p D) back stack s (.leave (.jump j stack' s')) := by
      rintro ⟨o, ho, hturn⟩
      cases o with
      | fall =>
        obtain ⟨taken, _, -, hturn⟩ := hturn
        cases taken <;> cases hturn
      | jump =>
        cases hturn
        exact iht hb ho
      | halt => cases hturn
    induction h with
    | again _ _ ih => exact ih hout
    | leave h =>
      subst hout
      obtain ⟨o, -, hturn⟩ := h
      cases o with
      | fall => exact htail hturn
      | jump i =>
        cases i with
        | breakLoop => cases hturn
        | continueLoop =>
          cases resume with
          | top => cases hturn
          | tail => exact htail hturn
      | halt => cases hturn

/-- The marks do nothing. -/
theorem exec_unmark (b : Block) : b.unmark.Exec p D = b.Exec p D := by
  induction b with
  | empty | mark | instr | jump => rfl
  | seq a b iha ihb => simp only [unmark, Exec, iha, ihb]
  | skip op body ih => simp only [unmark, Exec, ih]
  | either yes no ihy ihn => simp only [unmark, Exec, ihy, ihn]
  | loop body tail back resume ihb iht => simp only [unmark, Exec, ihb, iht]

theorem exec_shown (b : Block) (debug : Bool) : (b.shown debug).Exec p D = b.Exec p D := by
  cases debug with
  | true => rfl
  | false => exact exec_unmark b

end Block

end ScriptToolchain.Compile
