import FrameFlow.Proofs.Entry
import FrameFlow.Proofs.LastWriter

/-!
# The arguments in the entry frame

The receiver takes the first slot, and each parameter the slots after the ones before
it, up to the end of the arguments.  No two of them overlap, so none is lost while the
others are written, and the entry frame holds all of them and nothing else.
-/

namespace FrameFlow

/-! ## Where parameters begin -/

def slotFrom (slot : Nat) (types : List FieldType) (k : Nat) : Nat :=
  slot + Width.total ((types.take k).map FieldType.width)

section

variable {slot k : Nat} {t : FieldType} {types : List FieldType}

@[simp] theorem slotFrom_zero : slotFrom slot types 0 = slot := by
  simp [slotFrom]

@[simp] theorem slotFrom_cons_succ :
    slotFrom slot (t :: types) (k + 1) = slotFrom (slot + t.width.slots) types k := by
  simp [slotFrom, Nat.add_assoc]

private theorem le_slotFrom : slot ≤ slotFrom slot types k :=
  Nat.le_add_right _ _

private theorem parametersFrom_getElem? :
    (parametersFrom slot types)[k]? = types[k]?.map fun t => (slotFrom slot types k, t) := by
  induction types generalizing slot k with
  | nil => rfl
  | cons t types ih =>
      cases k with
      | zero => simp [parametersFrom]
      | succ k => simp [parametersFrom, ih]

private theorem slotFrom_of_lt {j : Nat} (hlt : k < j) (hk : types[k]? = some t) :
    slotFrom slot types k + t.width.slots ≤ slotFrom slot types j := by
  induction types generalizing slot k j with
  | nil => cases hk
  | cons u types ih =>
      obtain ⟨j, rfl⟩ := Nat.exists_eq_succ_of_ne_zero (Nat.ne_of_gt (Nat.zero_lt_of_lt hlt))
      cases k with
      | zero =>
          cases hk
          rw [slotFrom_zero, slotFrom_cons_succ]
          exact le_slotFrom
      | succ k =>
          simp only [slotFrom_cons_succ]
          exact ih (Nat.lt_of_succ_lt_succ hlt) hk

/-- The parameters take all slots from the first one to the last, without gaps. -/
theorem exists_slotFrom_iff (slot : Nat) {s : Nat} :
    (∃ k t, types[k]? = some t ∧
        s ∈ Finset.Ico (slotFrom slot types k) (slotFrom slot types k + t.width.slots)) ↔
      slot ≤ s ∧ s < slot + Width.total (types.map FieldType.width) := by
  simp only [Finset.mem_Ico]
  induction types generalizing slot with
  | nil => simp
  | cons t types ih =>
      have hrest := ih (slot + t.width.slots)
      simp only [List.map_cons, Width.total_cons]
      constructor
      · rintro ⟨k, u, hu, hs⟩
        cases k with
        | zero =>
            cases hu
            rw [slotFrom_zero] at hs
            omega
        | succ k =>
            rw [slotFrom_cons_succ] at hs
            have := hrest.1 ⟨k, u, hu, hs⟩
            omega
      · intro hs
        by_cases hfirst : s < slot + t.width.slots
        · refine ⟨0, t, rfl, ?_⟩
          rw [slotFrom_zero]
          exact ⟨hs.1, hfirst⟩
        · obtain ⟨k, u, hu, hin⟩ := hrest.2 (by omega)
          refine ⟨k + 1, u, hu, ?_⟩
          rwa [slotFrom_cons_succ]

end

/-! ## Writes that do not overlap -/

namespace Frame

variable {F G : Frame} {writes : List (Nat × Value)} {k : Nat} {v : Value}

private theorem tryWrites_of_writeLocals (h : F.writeLocals writes = .ok G) :
    F.tryWrites writes = G := by
  induction writes generalizing F with
  | nil =>
      cases h
      rfl
  | cons write writes ih =>
      obtain ⟨H, hwrite, hrest⟩ := writeLocals_cons_ok.1 h
      have hfirst : F.tryWrite write = H := tryWrite_of_ok hwrite
      rw [tryWrites, List.foldl_cons, hfirst]
      exact ih hrest

private theorem lastWriter_iff_mem (hfits : ∀ write ∈ writes, F.Accepts write)
    (hapart : writes.Pairwise fun a b => Disjoint (extent a) (extent b)) :
    F.LastWriter writes k v ↔ (k, v) ∈ writes := by
  constructor
  · rintro ⟨before, after, rfl, _⟩
    simp
  · intro hmem
    obtain ⟨before, after, rfl⟩ := List.append_of_mem hmem
    refine ⟨before, after, rfl, ?_, ?_⟩
    · rw [accepts_iff, tryWrites_length]
      exact accepts_iff.1 (hfits _ hmem)
    · rintro between later rest rfl _
      exact List.rel_of_pairwise_cons (List.pairwise_append.1 hapart).2.1 (by simp)

private theorem writeLocals_accepted (h : F.writeLocals writes = .ok G) :
    (∀ write ∈ writes, F.Accepts write) ∧ G.stack = F.stack := by
  induction writes generalizing F with
  | nil =>
      cases h
      exact ⟨by simp, rfl⟩
  | cons write writes ih =>
      obtain ⟨H, hwrite, hrest⟩ := writeLocals_cons_ok.1 h
      obtain ⟨haccepted, hstack⟩ := ih hrest
      obtain ⟨_, rfl⟩ := writeLocal_ok_iff.1 hwrite
      refine ⟨List.forall_mem_cons.2 ⟨⟨_, hwrite⟩, fun later hlater => ?_⟩, hstack⟩
      simpa [accepts_iff] using haccepted later hlater

/-- If no two writes overlap, none of them is lost. -/
theorem writeLocals_present {n : Nat} {limit : Option Nat}
    (h : (empty n limit).writeLocals writes = .ok G)
    (hapart : writes.Pairwise fun a b => Disjoint (extent a) (extent b)) :
    G.locals[k]? = some (some v) ↔ (k, v) ∈ writes := by
  rw [← tryWrites_of_writeLocals h, tryWrites_present,
    lastWriter_iff_mem (writeLocals_accepted h).1 hapart]

end Frame

namespace Method

variable {m : Method} {F : Frame}

/-! ## The arguments of a method -/

def parameterSlot (m : Method) (k : Nat) : Nat :=
  slotFrom (receiverSlots m.access) m.type.params k

def parameterSlots (m : Method) (k : Nat) (t : FieldType) : Finset Nat :=
  Finset.Ico (m.parameterSlot k) (m.parameterSlot k + t.width.slots)

private theorem disjoint_parameterSlots {i j : Nat} {t u : FieldType} (hij : i ≠ j)
    (hi : m.type.params[i]? = some t) (hj : m.type.params[j]? = some u) :
    Disjoint (m.parameterSlots i t) (m.parameterSlots j u) := by
  have hbefore {i j : Nat} {t u : FieldType} (hlt : i < j) (hi : m.type.params[i]? = some t) :
      Disjoint (m.parameterSlots i t) (m.parameterSlots j u) := by
    have hle : m.parameterSlot i + t.width.slots ≤ m.parameterSlot j := slotFrom_of_lt hlt hi
    rw [Finset.disjoint_left]
    simp only [parameterSlots, Finset.mem_Ico]
    omega
  rcases Nat.lt_or_gt_of_ne hij with hlt | hgt
  · exact hbefore hlt hi
  · exact (hbefore hgt hj).symm

theorem parameters_getElem? (m : Method) (k : Nat) :
    m.parameters[k]? = m.type.params[k]?.map fun t => (m.parameterSlot k, t) :=
  parametersFrom_getElem?

theorem mem_parameters_iff {x : Nat × FieldType} :
    x ∈ m.parameters ↔ ∃ k, m.type.params[k]? = some x.2 ∧ x.1 = m.parameterSlot k := by
  simp only [List.mem_iff_getElem?, parameters_getElem?, Option.map_eq_some_iff]
  constructor
  · rintro ⟨k, t, ht, rfl⟩
    exact ⟨k, ht, rfl⟩
  · rintro ⟨k, ht, hslot⟩
    exact ⟨k, x.2, ht, Prod.ext hslot.symm rfl⟩

private theorem mem_arguments_iff {slot : Nat} {v : Value} :
    (slot, v) ∈ m.arguments ↔
      (m.access.isStatic = false ∧ slot = 0 ∧ v = .ref m.owner) ∨
        ∃ k t, m.type.params[k]? = some t ∧ slot = m.parameterSlot k ∧ v = .unresolved t.width := by
  have hparams : (slot, v) ∈ m.parameters.map (fun x => (x.1, Value.unresolved x.2.width)) ↔
      ∃ k t, m.type.params[k]? = some t ∧ slot = m.parameterSlot k ∧ v = .unresolved t.width := by
    rw [List.mem_map]
    constructor
    · rintro ⟨x, hx, heq⟩
      obtain ⟨k, ht, hslot⟩ := mem_parameters_iff.1 hx
      cases heq
      exact ⟨k, x.2, ht, hslot, rfl⟩
    · rintro ⟨k, t, ht, rfl, rfl⟩
      exact ⟨(m.parameterSlot k, t), mem_parameters_iff.2 ⟨k, ht, rfl⟩, rfl⟩
  unfold arguments
  cases m.access.isStatic with
  | true => simpa using hparams
  | false => simpa using or_congr_right hparams

private theorem arguments_apart (m : Method) :
    m.arguments.Pairwise fun a b => Disjoint (Frame.extent a) (Frame.extent b) := by
  have hparams : (m.parameters.map fun x => (x.1, Value.unresolved x.2.width)).Pairwise
      fun a b => Disjoint (Frame.extent a) (Frame.extent b) := by
    rw [List.pairwise_map, List.pairwise_iff_getElem]
    intro i j hi hj hlt
    have hat (k : Nat) (hk : k < m.parameters.length) :
        ∃ t, m.type.params[k]? = some t ∧ (m.parameterSlot k, t) = m.parameters[k] := by
      have hget := List.getElem?_eq_getElem hk
      rwa [parameters_getElem?, Option.map_eq_some_iff] at hget
    obtain ⟨t, ht, hti⟩ := hat i hi
    obtain ⟨u, hu, huj⟩ := hat j hj
    rw [← hti, ← huj]
    exact disjoint_parameterSlots (Nat.ne_of_lt hlt) ht hu
  unfold arguments
  cases hstatic : m.access.isStatic with
  | true => simpa using hparams
  | false =>
      refine List.pairwise_cons.2 ⟨fun argument hargument => ?_, hparams⟩
      obtain ⟨x, hx, rfl⟩ := List.mem_map.1 hargument
      obtain ⟨k, _, hslot⟩ := mem_parameters_iff.1 hx
      have hafter : 1 ≤ x.1 := by
        rw [hslot, parameterSlot, slotFrom, receiverSlots, hstatic]
        simp
      rw [Finset.disjoint_left]
      simp only [Frame.extent, Finset.mem_Ico, Value.width, Width.slots]
      omega

/-! ## The entry frame -/

/-- The receiver and the parameters are in their slots, and nothing else is in the frame. -/
structure Enters (m : Method) (F : Frame) : Prop where
  stack : F.stack = []
  size : F.locals.length = m.maxLocals
  receiver : F.locals[0]? = some (some (.ref m.owner)) ↔ m.access.isStatic = false
  parameter : ∀ k t, m.type.params[k]? = some t →
    F.locals[m.parameterSlot k]? = some (some (.unresolved t.width))
  empty : ∀ slot, slot < m.maxLocals → (m.access.isStatic = false → slot ≠ 0) →
    (∀ k, k < m.type.params.length → slot ≠ m.parameterSlot k) → F.locals[slot]? = some none

private theorem entryFrame_enters (h : m.entryFrame = .ok F) : m.Enters F := by
  have hsize := (entryFrame_of h).size
  have hpresent {slot : Nat} {v : Value} :
      F.locals[slot]? = some (some v) ↔ (slot, v) ∈ m.arguments :=
    Frame.writeLocals_present h m.arguments_apart
  refine ⟨(Frame.writeLocals_accepted h).2, hsize, ?_, fun k t ht => ?_,
    fun slot hslot hreceiver hparams => ?_⟩
  · rw [hpresent, mem_arguments_iff]
    simp
  · exact hpresent.2 (mem_arguments_iff.2 (.inr ⟨k, t, ht, rfl, rfl⟩))
  · have hin : slot < F.locals.length := by omega
    cases hheld : F.locals[slot]? with
    | none => exact absurd (List.getElem?_eq_none_iff.1 hheld) (Nat.not_le.2 hin)
    | some held =>
        cases held with
        | none => rfl
        | some v =>
            rcases mem_arguments_iff.1 (hpresent.1 hheld) with ⟨hinstance, rfl, _⟩ |
              ⟨k, t, ht, rfl, _⟩
            · exact absurd rfl (hreceiver hinstance)
            · exact absurd rfl (hparams k (List.getElem?_eq_some_iff.1 ht).1)

end Method

/--
Once the local table has been checked, a run of code that is not empty starts with a
frame that holds the receiver and the parameters, each in its own slots; together the
parameters take the slots from the receiver on up to the end of the arguments.
-/
theorem Method.entryFrame_arguments {m : Method} (hlocals : m.checkLocals = .ok ())
    (hcode : 0 < m.code.size) :
    (∃ F, m.entryFrame = .ok F ∧ m.Enters F ∧
      ∀ (σ : Type) (p : Problem σ) (world : σ), p.method = m →
        (Config.begin p F world).frames[FlowGraph.entry]? = some (some F) ∧
          (Config.begin p F world).stopped = none) ∧
    (∀ k, m.parameters[k]? = m.type.params[k]?.map fun t => (m.parameterSlot k, t)) ∧
    (∀ i j t u, i ≠ j → m.type.params[i]? = some t → m.type.params[j]? = some u →
      Disjoint (m.parameterSlots i t) (m.parameterSlots j u)) ∧
    ∀ slot, (∃ k t, m.type.params[k]? = some t ∧ slot ∈ m.parameterSlots k t) ↔
      Method.receiverSlots m.access ≤ slot ∧ slot < m.argumentSlots := by
  refine ⟨?_, m.parameters_getElem?, fun i j t u => disjoint_parameterSlots,
    fun _ => exists_slotFrom_iff _⟩
  obtain ⟨F, hF⟩ := entryFrame_ok hlocals
  refine ⟨F, hF, entryFrame_enters hF, ?_⟩
  rintro σ p world rfl
  exact ⟨Run.install_self (by simpa [FlowGraph.entry] using hcode), rfl⟩

def transferTo : Method where
  owner := "Account"
  name := "transferTo"
  type := ⟨[.base .long, .object "Account", .base .double, .base .int], none⟩
  access := ⟨1⟩
  maxLocals := 9
  maxStack := some 4
  code := #[.ret none]
  handlers := []

theorem transferTo_arguments :
    transferTo.checkLocals = .ok () ∧ 0 < transferTo.code.size ∧
      (∃ F, transferTo.entryFrame = .ok F ∧ transferTo.Enters F ∧
        F.locals = [some (.ref "Account"), some (.unresolved .two), none, some (.unresolved .one),
          some (.unresolved .two), none, some (.unresolved .one), none, none]) ∧
      transferTo.parameterSlots 2 (.base .double) = {4, 5} ∧
      Disjoint (transferTo.parameterSlots 0 (.base .long))
        (transferTo.parameterSlots 1 (.object "Account")) ∧
      ∃ k t, transferTo.type.params[k]? = some t ∧ 6 ∈ transferTo.parameterSlots k t := by
  have hlocals : transferTo.checkLocals = .ok () := by decide +kernel
  have hcode : 0 < transferTo.code.size := by decide
  obtain ⟨⟨F, hF, henters, _⟩, _, hapart, hcover⟩ := Method.entryFrame_arguments hlocals hcode
  have hentry : transferTo.entryFrame = .ok ⟨[some (.ref "Account"), some (.unresolved .two), none,
      some (.unresolved .one), some (.unresolved .two), none, some (.unresolved .one), none, none],
      [], some 4⟩ := by
    decide +kernel
  refine ⟨hlocals, hcode, ⟨F, hF, henters, ?_⟩, by decide, hapart 0 1 _ _ (by decide) rfl rfl,
    (hcover 6).2 (by decide)⟩
  cases hF.symm.trans hentry
  rfl

end FrameFlow
