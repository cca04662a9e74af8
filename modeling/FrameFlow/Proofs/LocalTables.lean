import FrameFlow.Proofs.Labels
import FrameFlow.Proofs.Shape
import Mathlib.Order.Bounds.Defs

/-!
# Local tables

A method assembled without a declared number of locals gets the least table that
holds its arguments and every slot its code names.  In such a table no instruction
looks for a local in vain, whatever is configured: tables keep their size during a
run, and a value that is written has the width that the instruction announces.
-/

namespace FrameFlow

/-! ## Looking for locals -/

/-- No local is looked for outside the table. -/
def InTable {α : Type} (x : Except FrameError α) : Prop :=
  ∀ slot size, x ≠ .error (.noSuchLocal slot size)

namespace InTable

variable {α β : Type} {F : Frame}

theorem ok (a : α) : InTable (.ok a) := by
  intro slot size h
  cases h

private theorem bind_ok {x : Except FrameError α} {f : α → Except FrameError β} (hx : InTable x)
    (hf : ∀ a, x = .ok a → InTable (f a)) : InTable (x >>= f) := by
  cases x with
  | error e =>
      intro slot size h
      exact hx slot size (congrArg Except.error (Except.error.inj h))
  | ok a => exact hf a rfl

theorem bind {x : Except FrameError α} {f : α → Except FrameError β} (hx : InTable x)
    (hf : ∀ a, InTable (f a)) : InTable (x >>= f) :=
  hx.bind_ok fun a _ => hf a

theorem push (F : Frame) (v : Value) : InTable (F.push v) := by
  intro slot size h
  unfold Frame.push at h
  split at h
  · cases h
  · split at h <;> cases h

private theorem pop (F : Frame) : InTable F.pop := by
  intro slot size h
  unfold Frame.pop at h
  split at h <;> cases h

theorem popWidth (F : Frame) (w : Width) : InTable (F.popWidth w) := by
  rw [Frame.popWidth_eq]
  refine (pop F).bind fun x => ?_
  split
  · exact ok x
  · intro slot size h
    cases h

private theorem popWidths (F : Frame) (ws : List Width) : InTable (F.popWidths ws) := by
  induction ws with
  | nil => exact ok _
  | cons w ws ih =>
      rw [Frame.popWidths_cons]
      exact ih.bind fun x => (popWidth x.2 w).bind fun y => ok _

theorem dropWidths (F : Frame) (ws : List Width) : InTable (F.dropWidths ws) := by
  rw [Frame.dropWidths_eq]
  exact (popWidths F ws).bind fun x => ok _

private theorem pushAll (F : Frame) (vs : List Value) : InTable (F.pushAll vs) := by
  induction vs generalizing F with
  | nil => exact ok F
  | cons v vs ih =>
      rw [Frame.pushAll_cons]
      exact (push F v).bind ih

private theorem pushResult (F : Frame) (result : Option Value) : InTable (F.pushResult result) := by
  cases result with
  | none => exact ok F
  | some v => exact push F v

private theorem readWidth {slot : Nat} (h : slot < F.locals.length) (w : Width) :
    InTable (F.readWidth slot w) := by
  rw [Frame.readWidth_eq]
  refine bind ?_ fun v => ?_
  · intro slot' size hread
    unfold Frame.readLocal at hread
    rw [List.getElem?_eq_getElem h] at hread
    split at hread
    · rename_i hnone
      cases hnone
    · cases hread
    · cases hread
  · split
    · exact ok v
    · intro slot size herror
      cases herror

private theorem writeLocal {slot : Nat} {v : Value} (h : slot + v.width.slots ≤ F.locals.length) :
    InTable (F.writeLocal slot v) := by
  rw [Frame.writeLocal_ok_iff.2 ⟨h, rfl⟩]
  exact ok _

/-! ## Instructions -/

private theorem byWidth {w : Width} {x y : Except FrameError α} (hx : InTable x) (hy : InTable y) :
    InTable (match w with
      | .two => x
      | .one => y) := by
  cases w with
  | one => exact hy
  | two => exact hx

private theorem stackOp (op : StackOp) (F : Frame) : InTable (op.effect F) := by
  cases op with
  | pop => exact (popWidth F _).bind fun x => ok x.2
  | pop2 => exact (pop F).bind fun x => byWidth (ok x.2) ((popWidth x.2 _).bind fun y => ok y.2)
  | dup => exact (popWidth F _).bind fun x => pushAll x.2 _
  | dupX1 | swap => exact (popWidth F _).bind fun x => (popWidth x.2 _).bind fun y => pushAll y.2 _
  | dupX2 =>
      refine (popWidth F _).bind fun x => (pop x.2).bind fun y => byWidth (pushAll y.2 _) ?_
      exact (popWidth y.2 _).bind fun z => pushAll z.2 _
  | dup2 =>
      refine (pop F).bind fun x => byWidth (pushAll x.2 _) ?_
      exact (popWidth x.2 _).bind fun y => pushAll y.2 _
  | dup2X1 =>
      refine (pop F).bind fun x => (popWidth x.2 _).bind fun y => byWidth (pushAll y.2 _) ?_
      exact (popWidth y.2 _).bind fun z => pushAll z.2 _
  | dup2X2 =>
      refine (pop F).bind fun x => byWidth ?_ ?_
      · refine (pop x.2).bind fun y => byWidth (pushAll y.2 _) ?_
        exact (popWidth y.2 _).bind fun z => pushAll z.2 _
      · refine (popWidth x.2 _).bind fun y => (pop y.2).bind fun z => byWidth (pushAll z.2 _) ?_
        exact (popWidth z.2 _).bind fun u => pushAll u.2 _

private theorem fieldAccess (access : FieldAccess) (f : FieldRef) (F : Frame) :
    InTable (access.effect f F) := by
  cases access with
  | getStatic => exact push F _
  | putStatic | putField => exact dropWidths F _
  | getField => exact (dropWidths F _).bind fun G => push G _

private theorem invokeKind (kind : InvokeKind) (m : MethodRef) (F : Frame) :
    InTable (kind.effect m F) := by
  cases kind <;> exact (dropWidths F _).bind fun G => pushResult G _

private theorem effect {τ : Type} {insn : Insn τ} (h : insn.localSlots ≤ F.locals.length) :
    InTable (insn.effect F) := by
  cases insn with
  | nop | jump _ => exact ok F
  | const _ | new _ => exact push F _
  | load kind slot =>
      have hslot : slot < F.locals.length := by
        have := kind.width.slots_pos
        simp only [Insn.localSlots] at h
        omega
      exact (readWidth hslot _).bind fun v => push F v
  | store kind slot =>
      refine (popWidth F _).bind_ok fun x hpop => ?_
      obtain ⟨v, G⟩ := x
      obtain ⟨rest, _, hwidth, rfl⟩ := Frame.popWidth_ok_iff.1 hpop
      rw [Insn.localSlots, ← hwidth] at h
      exact writeLocal h
  | increment slot delta =>
      rw [Insn.localSlots] at h
      refine (readWidth h .one).bind fun v => writeLocal ?_
      have hint : ∀ c d, Const.binary .int .add c (.int delta) = some d →
          d.width = Kind.int.width := fun c d hd => Const.width_of_kind (Const.binary_kind hd)
      rw [Value.fold₁_width (w := .one) hint]
      exact h
  | binary _ _ | compare _ =>
      exact (popWidth F _).bind fun x => (popWidth x.2 _).bind fun y => push y.2 _
  | negate _ | convert _ _ | narrow _ | checkCast _ | instanceOf _ =>
      exact (popWidth F _).bind fun x => push x.2 _
  | stack op => exact stackOp op F
  | branch _ _ | switch _ _ | throw | monitorEnter | monitorExit | branchCompare _ _ _
  | arrayStore _ => exact dropWidths F _
  | ret kind =>
      cases kind with
      | none => exact ok F
      | some kind => exact dropWidths F _
  | field access f => exact fieldAccess access f F
  | invoke kind m => exact invokeKind kind m F
  | newArray _ | newMultiArray _ _ | arrayLength | arrayLoad _ =>
      exact (dropWidths F _).bind fun G => push G _

private theorem onward {σ : Type} (cfg : Config σ) (world : σ) (position : Nat) {insn : Insn Nat}
    (h : insn.localSlots ≤ F.locals.length) :
    InTable (cfg.onward world position insn F) := by
  rcases Config.asks_cases insn with ⟨f, rfl⟩ | ⟨m, rfl⟩ | ⟨hfield, hcall⟩
  · rw [Config.onward_getStatic]
    exact push F _
  · rw [Config.onward_invokeStatic]
    exact (popWidths F _).bind fun x => pushResult x.2 _
  · rw [Config.onward_eq_effect cfg world position F hfield hcall]
    exact effect h

end InTable

/-! ## Runs -/

namespace Run

variable {σ : Type} {p : Problem σ}

private theorem Stops.inTable {position : Nat} {insn : Insn Nat} {F : Frame} {world : σ} {e : Error}
    (h : Stops p position insn F world e) (hslots : insn.localSlots ≤ F.locals.length)
    (i slot size : Nat) : e ≠ .frame i (.noSuchLocal slot size) := by
  rintro rfl
  cases h with
  | thrown _ _ hpush => exact InTable.push _ _ slot size hpush
  | normal honward => exact InTable.onward p.config world position hslots slot size honward

end Run

private theorem Frame.merge_inTable (F G : Frame) : InTable (F.merge G) := by
  intro slot size h
  unfold Frame.merge at h
  split at h <;> cases h

theorem Config.analyze_inTable {m : Method}
    (h : ∀ insn ∈ m.code, insn.localSlots ≤ m.maxLocals) {σ : Type} (cfg : Config σ) (start : σ)
    (i slot size : Nat) :
    (cfg.analyze m start).1 ≠ .error (.frame i (.noSuchLocal slot size)) := by
  intro herror
  obtain ⟨g, seed, _, _, hseed, hstopped⟩ := analyze_frame_error herror
  have hleads := cfg.solved_leads m g seed start
  refine hleads.stopped_of (Frame.lasting_of m)
    (Q := fun e => e ≠ .frame i (.noSuchLocal slot size)) ?_ ?_
    (Run.begin_allFrames (Method.entryFrame_of hseed) start) rfl _ hstopped rfl
  · rintro F G cause target _ _ hmerge ⟨⟩
    exact F.merge_inTable G slot size hmerge
  · intro position insn F world e hinsn hF hstops
    have hslots : insn.localSlots ≤ F.locals.length := by
      rw [hF.size]
      exact h insn (Array.mem_of_getElem? hinsn)
    exact hstops.inTable hslots i slot size

/-! ## Assembled tables -/

namespace Insn

variable {τ υ : Type}

def lastLocal? : Insn τ → Option Nat
  | load kind slot | store kind slot =>
      some (match kind.width with
        | .one => slot
        | .two => slot + 1)
  | increment slot _ => some slot
  | _ => none

private theorem localSlots_le_iff {insn : Insn τ} {n : Nat} :
    insn.localSlots ≤ n ↔ ∀ slot, insn.lastLocal? = some slot → slot < n := by
  cases insn with
  | load kind slot | store kind slot =>
      cases hwidth : kind.width <;>
        simp [localSlots, lastLocal?, hwidth, Width.slots, Nat.succ_le_iff]
  | increment slot delta =>
      simp only [localSlots, lastLocal?, Option.some.injEq, forall_eq', Nat.succ_le_iff]
  | _ => simp [localSlots, lastLocal?]

private theorem map_localSlots (f : τ → υ) (insn : Insn τ) :
    (insn.map f).localSlots = insn.localSlots := by
  cases insn <;> rfl

end Insn

namespace Draft

variable {d : Draft} {m : Method}

private theorem add_maxLocals {stmt : Stmt} (h : ∀ count, stmt ≠ .maxLocals count) :
    (d.add stmt).maxLocals = d.maxLocals := by
  cases stmt with
  | maxLocals count => exact absurd rfl (h count)
  | label name =>
      simp only [add]
      split <;> rfl
  | field kind owner name descriptor =>
      simp only [add]
      cases FieldRef.parse owner name descriptor <;> rfl
  | invoke kind owner name descriptor =>
      simp only [add]
      cases MethodRef.parse owner name descriptor <;> rfl
  | guard _ | access _ | maxStack _ | emit _ => rfl

private theorem addAll_maxLocals {stmts : List Stmt} (h : ∀ count, .maxLocals count ∉ stmts) :
    (d.addAll stmts).maxLocals = d.maxLocals := by
  induction stmts generalizing d with
  | nil => rfl
  | cons stmt stmts ih =>
      have hrest : ∀ count, .maxLocals count ∉ stmts := fun count hmem => h count (.tail _ hmem)
      have hstmt : ∀ count, stmt ≠ .maxLocals count := by
        rintro count rfl
        exact h count (.head _)
      exact (ih hrest).trans (add_maxLocals hstmt)

theorem neededLocals_le_iff {n : Nat} :
    d.neededLocals ≤ n ↔ Method.receiverSlots d.access + d.type.paramSlots ≤ n ∧
      ∀ insn ∈ d.code, insn.localSlots ≤ n := by
  have hfold : ∀ (counts : List Nat) (base : Nat),
      counts.foldl max base ≤ n ↔ base ≤ n ∧ ∀ count ∈ counts, count ≤ n := by
    intro counts
    induction counts with
    | nil => simp
    | cons count counts ih =>
        intro base
        simp [ih, and_assoc]
  simp [neededLocals, hfold]

/-- A table that is not declared holds exactly what the finished code needs. -/
theorem finish_maxLocals_le_iff (h : d.finish = .ok m) (hderived : d.maxLocals = none) {n : Nat} :
    m.maxLocals ≤ n ↔ m.argumentSlots ≤ n ∧ ∀ insn ∈ m.code, insn.localSlots ≤ n := by
  obtain ⟨_, hcode, _, hcount, _, heq⟩ := finish_ok h
  have hneeded : m.maxLocals = d.neededLocals := by
    rw [localCount, hderived] at hcount
    simp only at hcount
    split at hcount
    · exact (Except.ok.inj hcount).symm
    · cases hcount
  have hmap := eq_map_of_forall₂ hcode fun _ _ => resolve_ok
  have hslots : (∀ insn ∈ m.code, insn.localSlots ≤ n) ↔ ∀ insn ∈ d.code, insn.localSlots ≤ n := by
    simp [← Array.mem_toList_iff, hmap, Insn.map_localSlots]
  have hargs : m.argumentSlots = Method.receiverSlots d.access + d.type.paramSlots := by
    rw [heq]
    rfl
  rw [hneeded, neededLocals_le_iff, hslots, hargs]

end Draft

private theorem assemble_derived {owner name descriptor : String} {stmts : List Stmt} {m : Method}
    (hderived : ∀ count, .maxLocals count ∉ stmts)
    (h : assemble owner name descriptor stmts = .ok m) (n : Nat) :
    m.maxLocals ≤ n ↔ m.argumentSlots ≤ n ∧ ∀ insn ∈ m.code, insn.localSlots ≤ n := by
  unfold assemble at h
  split at h
  · rename_i d hstart
    refine Draft.finish_maxLocals_le_iff h ?_
    rw [Draft.addAll_maxLocals hderived]
    unfold Draft.start at hstart
    split at hstart
    · cases hstart
      rfl
    · cases hstart
  · cases h

/--
A local table that is not declared is large enough for every analysis, and no
larger than the arguments and the slots of the code ask for.
-/
theorem assemble_maxLocals {owner name descriptor : String} {stmts : List Stmt} {m : Method}
    (hderived : ∀ count, .maxLocals count ∉ stmts)
    (h : assemble owner name descriptor stmts = .ok m) :
    (∀ (σ : Type) (cfg : Config σ) (start : σ) (i slot size : Nat),
      (cfg.analyze m start).1 ≠ .error (.frame i (.noSuchLocal slot size))) ∧
    IsLeast {n | m.argumentSlots ≤ n ∧
      ∀ insn ∈ m.code, ∀ slot, insn.lastLocal? = some slot → slot < n} m.maxLocals := by
  have hneeded := assemble_derived hderived h
  have hself := (hneeded m.maxLocals).1 (Nat.le_refl _)
  refine ⟨fun σ cfg start => Config.analyze_inTable hself.2 cfg start, ?_, ?_⟩
  · exact ⟨hself.1, fun insn hinsn => Insn.localSlots_le_iff.1 (hself.2 insn hinsn)⟩
  · rintro n ⟨hargs, hcode⟩
    exact (hneeded n).2 ⟨hargs, fun insn hinsn => Insn.localSlots_le_iff.2 (hcode insn hinsn)⟩

def depositStmts : List Stmt :=
  [.access ⟨1⟩,
    .emit (.load .long 1),
    .emit (.store .long 4),
    .emit (.increment 3 1),
    .emit (.ret none)]

def deposit : Method where
  owner := "Account"
  name := "deposit"
  type := ⟨[.base .long], none⟩
  access := ⟨1⟩
  maxLocals := 6
  maxStack := none
  code := #[.load .long 1, .store .long 4, .increment 3 1, .ret none]
  handlers := []

theorem deposit_maxLocals :
    assemble "Account" "deposit" "(J)V" depositStmts = .ok deposit ∧
      IsLeast {n | deposit.argumentSlots ≤ n ∧
        ∀ insn ∈ deposit.code, ∀ slot, insn.lastLocal? = some slot → slot < n} 6 ∧
      (Config.analyze ({} : Config Unit) deposit ()).1 = .error (.frame 2 (.emptyLocal 3)) ∧
      ∀ (cfg : Config Nat) (i slot size : Nat),
        (cfg.analyze deposit 0).1 ≠ .error (.frame i (.noSuchLocal slot size)) := by
  have hdeposit : assemble "Account" "deposit" "(J)V" depositStmts = .ok deposit := by cbv
  have hderived : ∀ count, .maxLocals count ∉ depositStmts := by simp [depositStmts]
  obtain ⟨hfound, hleast⟩ := assemble_maxLocals hderived hdeposit
  exact ⟨hdeposit, hleast, by cbv, fun cfg => hfound Nat cfg 0⟩

end FrameFlow
