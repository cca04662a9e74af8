import FrameFlow.Proofs.Least
import FrameFlow.Proofs.Shape

/-!
# More knowledge, more precision

Two configurations without simulation differ only in their tables.  If one knows
every field constant and every pure method of the other, its analysis succeeds
wherever that of the other does, and all frames and the result are at least as
precise.  The runs may differ widely: more calls are folded and fewer values
collapse in merges.  But the frames the coarser run ends with bound the whole
finer run, since the finer configuration tracks the coarser one.
-/

namespace FrameFlow

variable {σ τ : Type}

structure Tables where
  fields : Option KnownFields := none
  methods : Option PureMethods := none

namespace Tables

def field? (t : Tables) (f : FieldRef) : Option Const :=
  t.fields.bind fun known => known.constant? f

def function? (t : Tables) (m : MethodRef) : Option PureFunction :=
  t.methods.bind fun methods => methods.function? m

def fold? (t : Tables) (m : MethodRef) (args : List Value) : Option Const :=
  t.methods.bind fun methods => methods.fold? m args

structure Within (t t' : Tables) : Prop where
  fields : ∀ f c, t.field? f = some c → t'.field? f = some c
  methods : ∀ m function, t.function? m = some function → t'.function? m = some function

private theorem fold?_eq_some {t : Tables} {m : MethodRef} {args : List Value} {c : Const} :
    t.fold? m args = some c ↔ ∃ function cs, t.function? m = some function ∧
      constArguments? args = some cs ∧ function cs = some c := by
  unfold fold? function?
  cases t.methods with
  | none => simp
  | some methods =>
      simp only [Option.bind_some, PureMethods.fold?]
      cases methods.function? m <;> cases constArguments? args <;> simp

private theorem constArguments?_of_refines {args args' : List Value}
    (h : List.Forall₂ Value.Refines args args') {cs : List Const}
    (hcs : constArguments? args' = some cs) : constArguments? args = some cs := by
  cases hhost : Value.hostArguments? args' with
  | none =>
      rw [constArguments?_of_hostArguments? hhost] at hcs
      cases hcs
  | some vs => rw [(arguments_eq (h.imp fun _ _ hab => hab.2) hhost).2, hcs]

private theorem Within.fold? {t t' : Tables} (h : t.Within t') {m : MethodRef}
    {args args' : List Value} (hargs : List.Forall₂ Value.Refines args args') {c : Const}
    (hc : t.fold? m args' = some c) : t'.fold? m args = some c := by
  obtain ⟨function, cs, hfunction, hcs, happly⟩ := fold?_eq_some.1 hc
  exact fold?_eq_some.2 ⟨function, cs, h.methods m function hfunction,
    constArguments?_of_refines hargs hcs, happly⟩

end Tables

@[simp] theorem Value.shapedTo_unresolved (w : Width) :
    (unresolved w).shapedTo w = unresolved w :=
  ite_self _

private theorem Value.refines_shapedTo {c c' : Option Const} (h : ∀ d, c' = some d → c = some d)
    (w : Width) : ((ofFold c w).shapedTo w).Refines ((ofFold c' w).shapedTo w) := by
  have hplain := ((native_ofFold c w).shapedTo w).plain
  cases c' with
  | some d =>
      rw [h d rfl] at hplain ⊢
      exact hplain.refines
  | none =>
      have htop : (ofFold none w).shapedTo w = unresolved w := shapedTo_unresolved w
      rw [htop]
      exact hplain.refines_unresolved (shapedTo_width _ w)

private theorem Frame.sameShape_and_le {x y : Option Frame} (hshape : Option.Rel SameShape x y)
    (h : Option.Rel (Rel Value.Refines) x y) :
    Option.Rel (fun F G => SameShape F G ∧ F ≤ G) x y := by
  cases hshape with
  | none => exact .none
  | some hFG =>
      cases h with
      | some hrefines => exact .some ⟨hFG, hrefines.le⟩

namespace Config

/-- Without simulation, and with the given tables as the only sources. -/
structure Uses (cfg : Config σ) (t : Tables) : Prop where
  mode : cfg.mode = .constants
  fields : cfg.fields = t.fields.map KnownFields.source
  calls : cfg.calls = t.methods.map PureMethods.source

namespace Uses

variable {cfg : Config σ} {t : Tables}

private theorem staticField (h : cfg.Uses t) (f : FieldRef) (world : σ) :
    (cfg.staticField f world).1 = (Value.ofFold (t.field? f) f.width).shapedTo f.width := by
  unfold Config.staticField Tables.field?
  rw [h.fields]
  cases t.fields with
  | none => simp [Value.ofFold]
  | some known =>
      simp only [Option.map_some, KnownFields.source, KnownFields.get, Option.bind_some]
      cases known.constant? f <;> rfl

private theorem callResult (h : cfg.Uses t) (world : σ) (position : Nat) (m : MethodRef)
    (args : List Value) :
    cfg.callResult world position m args =
      m.resultWidth?.map fun w => (Value.ofFold (t.fold? m args) w).shapedTo w := by
  unfold Config.callResult Tables.fold?
  cases hmethods : t.methods with
  | none =>
      have hcalls : cfg.calls = none := by rw [h.calls, hmethods]; rfl
      unfold Config.staticCall
      simp only [hcalls, simulateCall_constants h.mode, MethodRef.unresolvedResult,
        Option.bind_none]
      cases m.resultWidth? <;> simp [Value.ofFold]
  | some methods =>
      have hcalls : cfg.calls = some methods.source := by rw [h.calls, hmethods]; rfl
      rw [Tabled.staticCall_table hcalls, simulateCall_constants h.mode, ite_self]
      simp only [MethodRef.shapedResult, PureMethods.call, Option.bind_some]
      cases m.resultWidth? with
      | none => rfl
      | some w => cases methods.fold? m args <;> rfl

end Uses

variable {fine : Config σ} {coarse : Config τ} {t t' : Tables}

private theorem Uses.tracks (hfine : fine.Uses t') (hcoarse : coarse.Uses t) (h : t.Within t') :
    fine.Tracks Value.Refines (fun _ => True) coarse fun _ => True := by
  intro world world' _ _ F G hFG position insn
  apply onward_follows Value.refines_respected _ _ hFG
  · intro f
    rw [hfine.staticField, hcoarse.staticField]
    exact Value.refines_shapedTo (h.fields f) f.width
  · intro position m args args' hargs
    rw [hfine.callResult, hcoarse.callResult]
    cases m.resultWidth? with
    | none => exact .none
    | some w => exact .some (Value.refines_shapedTo (fun _ => h.fold? hargs) w)

/-! ## Two runs -/

section

variable {m : Method} {g : FlowGraph} {seed : Frame} (hgraph : m.graph = .ok g)
  (hseed : m.entryFrame = .ok seed) (hfine : fine.Uses t') (hcoarse : coarse.Uses t)
  (h : t.Within t') (start : σ) {start' : τ}
  (hstopped : (coarse.solved m g seed start').stopped = none)

include hgraph hseed hfine hcoarse h hstopped

theorem solved_within_refines :
    Run.Within Value.Refines (coarse.solved m g seed start').frame?
      (fine.solved m g seed start) := by
  have hleads := fine.solved_leads m g seed start
  have hclosed := solved_closed hgraph hseed coarse start' hstopped
  have htracks := hfine.tracks hcoarse h
  exact hleads.within hclosed Value.refines_respected htracks (fun _ _ => trivial)
    (Method.entryFrame_refines hseed)

theorem solved_stopped_none : (fine.solved m g seed start).stopped = none := by
  have hwithin := solved_within_refines hgraph hseed hfine hcoarse h start hstopped
  cases hfineStopped : (fine.solved m g seed start).stopped with
  | none => rfl
  | some e =>
      obtain ⟨f, rfl⟩ := hwithin.stopped e hfineStopped
      have hhalts := (fine.solved_leads m g seed start).halted rfl _ hfineStopped
      obtain ⟨i, cause, hframe⟩ := hhalts.frame_of_constants hfine.mode
      cases hframe

theorem solved_refines (i : Nat) :
    Option.Rel (Frame.Rel Value.Refines) ((fine.solved m g seed start).frame? i)
      ((coarse.solved m g seed start').frame? i) := by
  have hwithin := solved_within_refines hgraph hseed hfine hcoarse h start hstopped
  have hfineStopped := solved_stopped_none hgraph hseed hfine hcoarse h start hstopped
  have hshape := solved_sameShape hgraph hseed fine coarse start start' hfineStopped hstopped i
  cases hF : (fine.solved m g seed start).frame? i with
  | none =>
      cases hG : (coarse.solved m g seed start').frame? i with
      | none => exact .none
      | some G =>
          rw [hF, hG] at hshape
          cases hshape
  | some F =>
      obtain ⟨G, hG, hFG⟩ := hwithin.frames i F (Run.frame?_eq_some.1 hF)
      rw [hG]
      exact .some hFG

theorem solved_forall₂_refines :
    List.Forall₂ (Option.Rel (Frame.Rel Value.Refines)) (fine.solved m g seed start).frames.toList
      (coarse.solved m g seed start').frames.toList := by
  have hsize := (fine.solved_leads m g seed start).frames_size hgraph hseed
  have hsize' := (coarse.solved_leads m g seed start').frames_size hgraph hseed
  have hlength : (fine.solved m g seed start).frames.toList.length =
      (coarse.solved m g seed start').frames.toList.length := hsize.trans hsize'.symm
  refine List.forall₂_iff_get.2 ⟨hlength, fun i hi hi' => ?_⟩
  have hrel := solved_refines hgraph hseed hfine hcoarse h start hstopped i
  simp only [Array.length_toList] at hi hi'
  simpa [Run.frame?, hi, hi'] using hrel

end

/--
An analysis that knows all that another one knows succeeds where that one does,
reaches the same instructions, and finds frames of the same shape and a result
that are at least as precise.
-/
theorem analyze_refines (hfine : fine.Uses t') (hcoarse : coarse.Uses t) (h : t.Within t')
    (m : Method) (start : σ) (start' : τ) {a : Analysis}
    (ha : (coarse.analyze m start').1 = .ok a) :
    ∃ b, (fine.analyze m start).1 = .ok b ∧
      (∀ i, Option.Rel (fun F G => Frame.SameShape F G ∧ F ≤ G) (b.frame? i) (a.frame? i)) ∧
      Option.Rel (fun u v => u ≤ v) b.result a.result := by
  obtain ⟨g, seed, hlocals, hgraph, hseed, houtcome⟩ := analyze_outcome ha
  obtain ⟨hstopped, result, hresult, rfl⟩ := outcome_ok houtcome
  have hfineStopped := solved_stopped_none hgraph hseed hfine hcoarse h start hstopped
  have hvalues := Method.returned_rel m.code.toList
    (solved_forall₂_refines hgraph hseed hfine hcoarse h start hstopped)
  obtain ⟨result', hresult', hrel⟩ :=
    Value.joinAll_rel Value.refines_respected.toJoinStable hvalues hresult
  refine ⟨_, (fine.analyze_eq hlocals hgraph hseed start).trans
    (outcome_of_joinAll hfineStopped hresult'), fun i => ?_, ?_⟩
  · exact Frame.sameShape_and_le
      (solved_sameShape hgraph hseed fine coarse start start' hfineStopped hstopped i)
      (solved_refines hgraph hseed hfine hcoarse h start hstopped i)
  · cases hrel with
    | none => exact .none
    | some huv => exact .some huv.2

end Config

/-! ## Two tables -/

private theorem find?_replaceEntry {κ α : Type} [DecidableEq κ] (key k : κ) (a : α)
    (entries : List (κ × α)) :
    (replaceEntry key a entries).find? (fun entry => entry.1 = k) =
      if key = k then some (key, a) else entries.find? fun entry => entry.1 = k := by
  induction entries with
  | nil => by_cases hkey : key = k <;> simp [replaceEntry, hkey]
  | cons entry rest ih =>
      obtain ⟨k', b⟩ := entry
      unfold replaceEntry
      split
      · rename_i hk
        subst hk
        by_cases hkey : k' = k <;> simp [hkey]
      · rename_i hk
        rw [List.find?_cons, List.find?_cons, ih]
        by_cases hkey : k' = k
        · subst hkey
          simp [Ne.symm hk]
        · simp [hkey]

def Tables.setup (t : Tables) : Setup Unit where
  fields := t.fields.map KnownFields.source
  calls := t.methods.map PureMethods.source

private theorem Tables.setup_uses (t : Tables) : t.setup.config.Uses t where
  mode := rfl
  fields := by
    obtain ⟨fields, _⟩ := t
    cases fields <;> rfl
  calls := by
    obtain ⟨_, methods⟩ := t
    cases methods <;> rfl

def scale : FieldRef := ⟨"Units", "SCALE", .base .int⟩

def shift : FieldRef := ⟨"Units", "SHIFT", .base .int⟩

def blend : MethodRef := ⟨"Units", "blend", ⟨[.base .int, .base .int], some (.base .int)⟩⟩

/-- Blends in one of two ways, which are the same if the second field is known to be one. -/
def convertUnits : Method where
  owner := "Units"
  name := "convert"
  type := ⟨[.base .int], some (.base .int)⟩
  access := .publicStatic
  maxLocals := 3
  maxStack := none
  code := #[.field .getStatic scale, .store .int 1, .field .getStatic shift, .store .int 2,
    .load .int 0, .branch .ne 10, .load .int 1, .const (.int 1), .invoke .static blend,
    .jump 13, .load .int 1, .load .int 2, .invoke .static blend, .load .int 2,
    .binary .int .add, .ret (some .int)]
  handlers := []

def scaleOnly : Tables where
  fields := some (KnownFields.empty.insert scale (.int 2))
  methods := some (PureMethods.empty.insert blend PureRule.mix.apply)

def scaleAndShift : Tables :=
  { scaleOnly with
    fields := some ((KnownFields.empty.insert scale (.int 2)).insert shift (.int 1)) }

private theorem scaleOnly_within : scaleOnly.Within scaleAndShift where
  fields f c h := by
    have hentry : scale = f ∧ .int 2 = c := by
      simpa [Tables.field?, scaleOnly, KnownFields.insert, KnownFields.empty,
        KnownFields.constant?, find?_replaceEntry] using h
    obtain ⟨rfl, rfl⟩ := hentry
    decide
  methods _ _ h := h

theorem convertUnits_refines :
    ∃ a b, (scaleOnly.setup.config.analyze convertUnits (Memo.fresh ())).1 = .ok a ∧
      a.result = some (.unresolved .one) ∧
      (scaleAndShift.setup.config.analyze convertUnits (Memo.fresh ())).1 = .ok b ∧
      b.result = some (.const (.int 64)) ∧
      ∀ i, Option.Rel (fun F G => Frame.SameShape F G ∧ F ≤ G) (b.frame? i) (a.frame? i) := by
  have hcoarse : (scaleOnly.setup.config.analyze convertUnits (Memo.fresh ())).1.map
      Analysis.result = .ok (some (.unresolved .one)) := by cbv
  have hfine : (scaleAndShift.setup.config.analyze convertUnits (Memo.fresh ())).1.map
      Analysis.result = .ok (some (.const (.int 64))) := by cbv
  obtain ⟨a, ha, haresult⟩ := Analysis.exists_of_map hcoarse
  obtain ⟨b, hb, hframes, _⟩ := Config.analyze_refines scaleAndShift.setup_uses
    scaleOnly.setup_uses scaleOnly_within convertUnits (Memo.fresh ()) (Memo.fresh ()) ha
  obtain ⟨b', hb', hbresult⟩ := Analysis.exists_of_map hfine
  cases hb.symm.trans hb'
  exact ⟨a, b, ha, haresult, hb, hbresult, hframes⟩

end FrameFlow
