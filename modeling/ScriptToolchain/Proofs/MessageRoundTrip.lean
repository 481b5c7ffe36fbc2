import Mathlib.Tactic
import ScriptToolchain.Debug.Codec
import ScriptToolchain.Proofs.Fields

/-!
# Messages there and back

`Command.ofBytes_eq_ok_iff` and `Event.ofBytes_eq_ok_iff` say which bytes are
read as a message: its tag and its fields, where any word but zero may stand
for a truth that holds and no text has a zero character. So a command comes
back as it is, an event with its texts cut, and the bytes that are accepted are
those that are written, up to the word for the truth.
-/

namespace ScriptToolchain

/-- The bytes with the word at the offset, if it is not zero, made one. -/
def Bytes.settleTruth : Option Nat → Bytes → Bytes
  | none, b => b
  | some i, b => if toWord32 (b.extract i (i + 4)) = 0 then b else b.store i (Bytes.ofWord32 1)

theorem Bytes.settleTruth_append (first : Bytes) (holds : Bool) {truth : UInt32}
    (h : truth ≠ 0) :
    settleTruth (some first.size) (first ++ ofWord32 (if holds then truth else 0)) =
      first ++ ofWord32 (if holds then 1 else 0) := by
  have hword := extract_behind first (ofWord32 (if holds then truth else 0))
  rw [size_ofWord32] at hword
  rw [settleTruth, hword, toWord32_ofWord32]
  cases holds with
  | false => rfl
  | true =>
    rw [if_pos rfl, if_neg h]
    have hstore := store_middle first (ofWord32 truth) #[] (ofWord32 1) rfl
    rwa [Array.append_empty, Array.append_empty] at hstore

namespace Debug

open Reader

/-! ## What is written -/

/-- Where the word for a truth stands in a command of this kind. -/
def CommandKind.truthOffset? : CommandKind → Option Nat
  | .setBreakpoint => some 20
  | _ => none

/-- Where the word for a truth stands in an event of this kind. -/
def EventKind.truthOffset? : EventKind → Option Nat
  | .ack => some 8
  | _ => none

/-- The variable with its texts cut at their first zero character. -/
def Variable.cut (v : Variable) : Variable :=
  { v with name := Text.cut v.name, value := Text.cut v.value }

/-- The event with all its texts cut at their first zero character. -/
def Event.cut : Event → Event
  | .source id name text => .source id (Text.cut name) (Text.cut text)
  | .contextCall frame function id line this =>
    .contextCall frame (Text.cut function) id line this.cut
  | .contextVariable v => .contextVariable v.cut
  | .sourceInfo id name => .sourceInfo id (Text.cut name)
  | .error text => .error (Text.cut text)
  | .message text => .message (Text.cut text)
  | e => e

/-- The fields of a command with any word for a truth that holds. -/
def Command.fieldsWith (truth : UInt32) : Command → List Field
  | .setBreakpoint response source line thread enabled =>
    [.word response, .word source, .word line, .word thread, .word (if enabled then truth else 0)]
  | c => c.fields

/-- The fields of an event with any word for a truth that holds. -/
def Event.fieldsWith (truth : UInt32) : Event → List Field
  | .ack response ok => [.word response, .word (if ok then truth else 0)]
  | e => e.fields

namespace ReadFields

/-! ## Reading single fields -/

theorem reads_field {α : Type} {read : Read α} {form : α → Bytes → Prop} (h : Reads read form) :
    Reads (field read) form := by
  intro r hr a r'
  rw [← h hr]
  unfold field
  cases read r <;> simp

theorem reads_word : Reads word (Encoded (fun _ => True) Bytes.ofWord32) :=
  reads_field reads_word32

theorem reads_text :
    Reads text (Encoded (fun s => Text.cut s = s) fun s => (Field.text s).bytes) :=
  reads_field reads_terminatedText

theorem reads_flag :
    Reads flag fun holds b =>
      ∃ truth, truth ≠ 0 ∧ b = Bytes.ofWord32 (if holds then truth else 0) := by
  refine (reads_word.next fun w => reads_pure (w != 0)).of_iff fun holds b => ?_
  constructor
  · rintro ⟨w, _, -, ⟨rfl, rfl⟩, rfl⟩
    by_cases hw : w = 0
    · exact ⟨1, by decide, by simp [hw]⟩
    · exact ⟨w, hw, by simp [hw]⟩
  · rintro ⟨truth, htruth, rfl⟩
    refine ⟨if holds then truth else 0, #[], trivial, ⟨?_, rfl⟩, Array.append_empty.symm⟩
    cases holds <;> simp [htruth]

theorem reads_variable :
    Reads namedValue (Encoded (fun v => v.cut = v) fun v => Field.bytesOf v.fields) := by
  refine (reads_text.next fun name => reads_text.next fun value => reads_word.next fun reference =>
    reads_pure _).of_iff fun v b => ?_
  constructor
  · rintro ⟨name, _, hname, ⟨value, _, hvalue, ⟨reference, _, -, ⟨rfl, rfl⟩, rfl⟩, rfl⟩, rfl⟩
    exact ⟨by simp [Variable.cut, hname, hvalue], by simp [Variable.fields]⟩
  · rintro ⟨hcut, rfl⟩
    have hname : Text.cut v.name = v.name := congrArg Variable.name hcut
    have hvalue : Text.cut v.value = v.value := congrArg Variable.value hcut
    refine ⟨v.name, _, hname, ⟨v.value, _, hvalue, ⟨v.reference, #[], trivial, ⟨rfl, rfl⟩, rfl⟩,
      rfl⟩, ?_⟩
    simp [Variable.fields]

theorem ofCode?_eq_some_iff {w : UInt32} {s : ThreadState} :
    ThreadState.ofCode? w = some s ↔ s.code = w := by
  constructor
  · intro h
    simpa using List.find?_some h
  · rintro rfl
    cases s <;> rfl

theorem reads_threadState :
    Reads threadState (Encoded (fun _ => True) fun s => Bytes.ofWord32 s.code) := by
  refine (reads_word.next fun w => (?_ : Reads _ fun s b =>
    s.code = w ∧ b = #[])).of_iff fun s b => ?_
  · cases hstate : ThreadState.ofCode? w with
    | some s =>
      refine (reads_pure s).of_iff fun s' b => ?_
      rw [← ofCode?_eq_some_iff, hstate, Option.some_inj, eq_comm]
    | none =>
      refine (reads_throw _).of_iff fun s' b => ?_
      rw [← ofCode?_eq_some_iff, hstate]
      simp
  · constructor
    · rintro ⟨w, _, -, ⟨rfl, rfl⟩, rfl⟩
      exact ⟨trivial, Array.append_empty⟩
    · rintro ⟨-, rfl⟩
      exact ⟨s.code, #[], trivial, ⟨rfl, rfl⟩, Array.append_empty.symm⟩

end ReadFields

open ReadFields

/-! ## Reading messages -/

theorem CommandKind.size_tag (k : CommandKind) : k.tag.bytes.size = MessageTag.size := by
  cases k <;> rfl

theorem EventKind.size_tag (k : EventKind) : k.tag.bytes.size = MessageTag.size := by
  cases k <;> rfl

/-- A command starts with the tag of its kind. -/
theorem Command.toBytes_eq (c : Command) :
    c.toBytes = c.kind.tag.bytes ++ Field.bytesOf c.fields := by
  rw [toBytes, wire, Field.bytesOf_cons, Field.bytes_raw]

/-- An event starts with the tag of its kind. -/
theorem Event.toBytes_eq (e : Event) : e.toBytes = e.kind.tag.bytes ++ Field.bytesOf e.fields := by
  rw [toBytes, wire, Field.bytesOf_cons, Field.bytes_raw]

/-- No two kinds of commands share a tag. -/
theorem CommandKind.ofTag?_eq_some_iff {t : MessageTag} {k : CommandKind} :
    ofTag? t = some k ↔ k.tag = t := by
  constructor
  · intro h
    simpa using List.find?_some h
  · rintro rfl
    cases k <;> rfl

/-- No two kinds of events share a tag. -/
theorem EventKind.ofTag?_eq_some_iff {t : MessageTag} {k : EventKind} :
    ofTag? t = some k ↔ k.tag = t := by
  constructor
  · intro h
    simpa using List.find?_some h
  · rintro rfl
    cases k <;> rfl

theorem exists_truth : ∃ truth : UInt32, truth ≠ 0 :=
  ⟨1, by decide⟩

theorem reads_setBreakpoint : Reads CommandKind.setBreakpoint.read fun c b =>
    c.kind = .setBreakpoint ∧
      ∃ truth, truth ≠ 0 ∧ b = Field.bytesOf (c.fieldsWith truth) := by
  refine (reads_word.next fun _ => reads_word.next fun _ => reads_word.next fun _ =>
    reads_word.next fun _ => reads_flag.bind fun _ => reads_pure _).of_iff fun c b => ?_
  constructor
  · intro h
    obtain ⟨response, _, -, ⟨source, _, -, h, rfl⟩, rfl⟩ := h
    obtain ⟨line, _, -, ⟨thread, _, -, h, rfl⟩, rfl⟩ := h
    obtain ⟨enabled, _, _, ⟨truth, htruth, rfl⟩, ⟨rfl, rfl⟩, rfl⟩ := h
    exact ⟨rfl, truth, htruth, by simp [Command.fieldsWith]⟩
  · rintro ⟨hkind, truth, htruth, rfl⟩
    cases c with
    | setBreakpoint response source line thread enabled =>
      refine ⟨response, _, trivial, ⟨source, _, trivial, ⟨line, _, trivial, ⟨thread, _, trivial,
        ⟨enabled, _, #[], ⟨truth, htruth, rfl⟩, ⟨rfl, rfl⟩, rfl⟩, rfl⟩, rfl⟩, rfl⟩, ?_⟩
      simp [Command.fieldsWith]
    | _ => cases hkind

theorem reads_ack : Reads EventKind.ack.read fun e b =>
    e.kind = .ack ∧ e.cut = e ∧
      ∃ truth, truth ≠ 0 ∧ b = Field.bytesOf (e.fieldsWith truth) := by
  refine (reads_word.next fun _ => reads_flag.bind fun _ => reads_pure _).of_iff fun e b => ?_
  constructor
  · rintro ⟨response, _, -, ⟨ok, _, _, ⟨truth, htruth, rfl⟩, ⟨rfl, rfl⟩, rfl⟩, rfl⟩
    exact ⟨rfl, rfl, truth, htruth, by simp [Event.fieldsWith]⟩
  · rintro ⟨hkind, -, truth, htruth, rfl⟩
    cases e with
    | ack response ok =>
      refine ⟨response, _, trivial, ⟨ok, _, #[], ⟨truth, htruth, rfl⟩, ⟨rfl, rfl⟩, rfl⟩, ?_⟩
      simp [Event.fieldsWith]
    | _ => cases hkind

theorem CommandKind.reads_read (k : CommandKind) : Reads k.read fun c b =>
    c.kind = k ∧ ∃ truth, truth ≠ 0 ∧ b = Field.bytesOf (c.fieldsWith truth) := by
  refine match k with
    | .run | .stepInto | .stepOver | .stepOut | .getSource | .getVariableInfo | .forceBreak =>
      (reads_word.next fun _ => reads_pure _).of_iff ?_
    | .getContext => (reads_word.next fun _ => reads_word.next fun _ => reads_pure _).of_iff ?_
    | .getSourceInfo | .getThreadInfo | .endSession => (reads_pure _).of_iff ?_
    | .setBreakpoint => reads_setBreakpoint
  -- a command of another kind has neither form, one of this kind has its fields in both
  all_goals
    intro c b
    cases c <;>
      simp [Command.kind, Command.fieldsWith, Command.fields, exists_truth]

theorem EventKind.reads_read (k : EventKind) : Reads k.read fun e b =>
    e.kind = k ∧ e.cut = e ∧ ∃ truth, truth ≠ 0 ∧ b = Field.bytesOf (e.fieldsWith truth) := by
  refine match k with
    | .exception | .threadStarted | .threadStopped | .beginVariableInfo =>
      (reads_word.next fun _ => reads_pure _).of_iff ?_
    | .beginContext => (reads_word.next fun _ => reads_word.next fun _ => reads_pure _).of_iff ?_
    | .stopped =>
      (reads_word.next fun _ => reads_word.next fun _ => reads_word.next fun _ =>
        reads_pure _).of_iff ?_
    | .source =>
      (reads_word.next fun _ => reads_text.next fun _ => reads_text.next fun _ =>
        reads_pure _).of_iff ?_
    | .contextCall =>
      (reads_word.next fun _ => reads_text.next fun _ => reads_word.next fun _ =>
        reads_word.next fun _ => reads_variable.next fun _ => reads_pure _).of_iff ?_
    | .contextVariable => (reads_variable.next fun _ => reads_pure _).of_iff ?_
    | .sourceInfo => (reads_word.next fun _ => reads_text.next fun _ => reads_pure _).of_iff ?_
    | .threadInfo =>
      (reads_word.next fun _ => reads_threadState.next fun _ => reads_pure _).of_iff ?_
    | .error | .message => (reads_text.next fun _ => reads_pure _).of_iff ?_
    | .ack => reads_ack
    | .endContext | .beginSourceInfo | .endSourceInfo | .beginThreadInfo | .endThreadInfo
    | .endVariableInfo | .sessionEnd => (reads_pure _).of_iff ?_
  all_goals
    intro e b
    cases e <;>
      simp [Event.kind, Event.cut, Event.fieldsWith, Event.fields, exists_truth]

/-- What is read as a message: the tag of a kind, and fields of this kind. -/
theorem decodeMessage_eq_ok_iff {κ α : Type} {ofTag? : MessageTag → Option κ}
    {tag : κ → MessageTag} {read : κ → ReadFields α} {form : κ → α → Bytes → Prop}
    (htag : ∀ t k, ofTag? t = some k ↔ tag k = t)
    (hsize : ∀ k, (tag k).bytes.size = MessageTag.size)
    (hread : ∀ k, Reads (read k) (form k)) {bytes : Bytes} {a : α} :
    decodeMessage (fun t => (ofTag? t).map read) bytes = .ok a ↔
      ∃ k fields, form k a fields ∧ bytes = (tag k).bytes ++ fields := by
  unfold decodeMessage
  constructor
  · intro h
    split at h
    · cases h
    split at h
    · cases h
    rename_i hlong
    dsimp only at h
    cases hkind : ofTag? ⟨bytes.extract 0 MessageTag.size⟩ with
    | none =>
      rw [hkind] at h
      cases h
    | some k =>
      have hlead : (tag k).bytes = bytes.extract 0 MessageTag.size :=
        congrArg MessageTag.bytes ((htag _ _).mp hkind)
      have hbytes : bytes = (tag k).bytes ++ bytes.extract MessageTag.size bytes.size := by
        have hle : MessageTag.size ≤ bytes.size := Nat.le_of_not_lt hlong
        rw [hlead]
        simp [Nat.max_eq_right hle]
      rw [hkind] at h
      simp only [Option.map_some] at h
      split at h
      · cases h
      · rename_i a' r hrun
        split at h
        · rename_i hleft
          cases h
          refine ⟨k, _, ?_, hbytes⟩
          apply ((hread k).ends_iff (tag k).bytes _ a).mp
          rw [← hbytes, hsize]
          exact ⟨r, hrun, hleft⟩
        · cases h
  · rintro ⟨k, fields, hform, rfl⟩
    obtain ⟨r, hrun, hleft⟩ := ((hread k).ends_iff (tag k).bytes fields a).mpr hform
    have hlead : (⟨((tag k).bytes ++ fields).extract 0 MessageTag.size⟩ : MessageTag) = tag k := by
      rw [← hsize k, Array.extract_append]
      simp
    have hlong : 4 ≤ ((tag k).bytes ++ fields).size := by
      rw [Array.size_append, hsize]
      exact Nat.le_add_right _ _
    rw [if_neg (by omega), if_neg (by unfold MessageTag.size; omega)]
    dsimp only
    rw [hlead, (htag _ _).mpr rfl]
    simp only [Option.map_some]
    rw [← hsize k, hrun]
    simp only [hleft, if_true]

/-- The bytes that are read as a command. -/
theorem Command.ofBytes_eq_ok_iff {bytes : Bytes} {c : Command} :
    ofBytes bytes = .ok c ↔ ∃ truth, truth ≠ 0 ∧
      bytes = c.kind.tag.bytes ++ Field.bytesOf (c.fieldsWith truth) := by
  rw [ofBytes, decodeMessage_eq_ok_iff (fun _ _ => CommandKind.ofTag?_eq_some_iff)
    CommandKind.size_tag CommandKind.reads_read]
  constructor
  · rintro ⟨k, _, ⟨rfl, truth, htruth, rfl⟩, hbytes⟩
    exact ⟨truth, htruth, hbytes⟩
  · rintro ⟨truth, htruth, hbytes⟩
    exact ⟨c.kind, _, ⟨rfl, truth, htruth, rfl⟩, hbytes⟩

/-- The bytes that are read as an event. -/
theorem Event.ofBytes_eq_ok_iff {bytes : Bytes} {e : Event} :
    ofBytes bytes = .ok e ↔ e.cut = e ∧ ∃ truth, truth ≠ 0 ∧
      bytes = e.kind.tag.bytes ++ Field.bytesOf (e.fieldsWith truth) := by
  rw [ofBytes, decodeMessage_eq_ok_iff (fun _ _ => EventKind.ofTag?_eq_some_iff)
    EventKind.size_tag EventKind.reads_read]
  constructor
  · rintro ⟨k, _, ⟨rfl, hcut, truth, htruth, rfl⟩, hbytes⟩
    exact ⟨hcut, truth, htruth, hbytes⟩
  · rintro ⟨hcut, truth, htruth, hbytes⟩
    exact ⟨e.kind, _, ⟨rfl, hcut, truth, htruth, rfl⟩, hbytes⟩

/-! ## Both ways -/

theorem Command.fieldsWith_one (c : Command) : c.fieldsWith 1 = c.fields := by
  cases c <;> rfl

theorem Event.fieldsWith_one (e : Event) : e.fieldsWith 1 = e.fields := by
  cases e <;> rfl

theorem Event.kind_cut (e : Event) : e.cut.kind = e.kind := by
  cases e <;> rfl

theorem Event.cut_cut (e : Event) : e.cut.cut = e.cut := by
  cases e <;> simp [cut, Variable.cut, Text.cut_cut]

/-- The bytes of an event do not show what is cut. -/
theorem Event.bytesOf_cut (e : Event) : Field.bytesOf e.cut.fields = Field.bytesOf e.fields := by
  cases e <;> simp [cut, Variable.cut, fields, Variable.fields]

/-- A command is written as it was read, but for the word of a truth. -/
theorem Command.settleTruth_wire (c : Command) {truth : UInt32} (h : truth ≠ 0) :
    Bytes.settleTruth c.kind.truthOffset?
      (c.kind.tag.bytes ++ Field.bytesOf (c.fieldsWith truth)) = c.toBytes := by
  rw [toBytes_eq]
  cases c with
  | setBreakpoint response source line thread enabled =>
    have hsettle := Bytes.settleTruth_append (CommandKind.setBreakpoint.tag.bytes ++
      Field.bytesOf [.word response, .word source, .word line, .word thread]) enabled h
    simpa [kind, CommandKind.truthOffset?, CommandKind.size_tag, MessageTag.size, fieldsWith,
      fields, flagField] using hsettle
  | _ => rfl

/-- An event is written as it was read, but for the word of a truth. -/
theorem Event.settleTruth_wire (e : Event) {truth : UInt32} (h : truth ≠ 0) :
    Bytes.settleTruth e.kind.truthOffset?
      (e.kind.tag.bytes ++ Field.bytesOf (e.fieldsWith truth)) = e.toBytes := by
  rw [toBytes_eq]
  cases e with
  | ack response ok =>
    have hsettle := Bytes.settleTruth_append
      (EventKind.ack.tag.bytes ++ Field.bytesOf [.word response]) ok h
    simpa [kind, EventKind.truthOffset?, EventKind.size_tag, MessageTag.size, fieldsWith, fields,
      flagField] using hsettle
  | _ => rfl

theorem Event.ofBytes_toBytes (e : Event) : Event.ofBytes e.toBytes = .ok e.cut := by
  apply Event.ofBytes_eq_ok_iff.mpr
  refine ⟨e.cut_cut, 1, by decide, ?_⟩
  rw [Event.fieldsWith_one, Event.kind_cut, Event.bytesOf_cut, Event.toBytes_eq]

/--
A command comes back from its bytes as it is, an event with each text cut at its first zero
character. Bytes that are read as a message are those that are written for it, except that the word
for a truth, where there is one, may have been any word but zero and is written as one.
-/
theorem messages_round_trip :
    (∀ c : Command, Command.ofBytes c.toBytes = .ok c) ∧
    (∀ e : Event, Event.ofBytes e.toBytes = .ok e.cut) ∧
    (∀ (bytes : Bytes) (c : Command), Command.ofBytes bytes = .ok c →
      c.toBytes = Bytes.settleTruth c.kind.truthOffset? bytes) ∧
    ∀ (bytes : Bytes) (e : Event), Event.ofBytes bytes = .ok e →
      e.toBytes = Bytes.settleTruth e.kind.truthOffset? bytes := by
  refine ⟨?_, ?_, ?_, ?_⟩
  · intro c
    apply Command.ofBytes_eq_ok_iff.mpr
    exact ⟨1, by decide, by rw [Command.fieldsWith_one, Command.toBytes_eq]⟩
  · exact Event.ofBytes_toBytes
  · intro bytes c h
    obtain ⟨truth, htruth, rfl⟩ := Command.ofBytes_eq_ok_iff.mp h
    exact (c.settleTruth_wire htruth).symm
  · intro bytes e h
    obtain ⟨-, truth, htruth, rfl⟩ := Event.ofBytes_eq_ok_iff.mp h
    exact (e.settleTruth_wire htruth).symm

/-- A command that arms a breakpoint. -/
def arming : Command :=
  .setBreakpoint 9 0xDEADBEEF 12 0 true

/-- Its bytes with another word for the truth. -/
def looseArming : Bytes :=
  CommandKind.setBreakpoint.tag.bytes ++ Field.bytesOf (arming.fieldsWith 7)

/-- A frame whose receiver has a value with a zero character. -/
def framed : Event :=
  .contextCall 1 "update" 3 40 { name := "this", value := "a\x00b", reference := 12 }

/-- The loose bytes are read as the command and written with one; the text is cut. -/
theorem messages_round_trip_framed :
    Command.ofBytes arming.toBytes = .ok arming ∧
      Command.ofBytes looseArming = .ok arming ∧
      arming.toBytes = Bytes.settleTruth (some 20) looseArming ∧
      arming.toBytes ≠ looseArming ∧
      Event.ofBytes framed.toBytes =
        .ok (.contextCall 1 "update" 3 40 { name := "this", value := "a", reference := 12 }) ∧
      framed.cut.toBytes = framed.toBytes := by
  have hloose : Command.ofBytes looseArming = .ok arming :=
    Command.ofBytes_eq_ok_iff.mpr ⟨7, by decide, rfl⟩
  have hcut : framed.cut =
      .contextCall 1 "update" 3 40 { name := "this", value := "a", reference := 12 } := by
    decide +kernel
  have hframed := messages_round_trip.2.1 framed
  refine ⟨messages_round_trip.1 arming, hloose, messages_round_trip.2.2.1 _ _ hloose,
    by decide, ?_, ?_⟩
  · rw [← hcut]
    exact hframed
  · exact messages_round_trip.2.2.2 _ _ hframed

end Debug

end ScriptToolchain
