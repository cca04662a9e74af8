import FrameFlow.Proofs.Acceptance
import FrameFlow.Proofs.Failures
import FrameFlow.Proofs.Joins

/-!
# What a method returns

The result of an analysis is joined after the run from what the returns find on
top of their stacks.  Since every instruction that was reached has been carried
out on its last frame, none of these tops is missing, and each is as wide as the
return says.  The join of many values is their least upper bound, so neither the
order of the returns nor a value returned twice matters.

Nothing compares a return with the type that the method declares.
-/

namespace FrameFlow

variable {σ : Type}

/-! ## Joins of many values -/

namespace Value

variable {v r : Value} {us vs : List Value}

private theorem lub_le_iff {a b c : Value} (h : a.width = b.width) :
    a.lub b ≤ c ↔ a ≤ c ∧ b ≤ c := by
  constructor
  · intro hle
    exact ⟨(le_lub_left a b).trans hle, (le_lub_right h).trans hle⟩
  · rintro ⟨ha, hb⟩
    exact lub_le ha hb

private theorem foldl_lub_le_iff {c : Value} (h : ∀ u ∈ vs, u.width = v.width) :
    vs.foldl lub v ≤ c ↔ v ≤ c ∧ ∀ u ∈ vs, u ≤ c := by
  induction vs generalizing v with
  | nil => simp
  | cons u vs ih =>
      have hu : v.width = u.width := (h u (by simp)).symm
      have hrest : ∀ x ∈ vs, x.width = (v.lub u).width := by
        intro x hx
        rw [lub_width]
        exact h x (by simp [hx])
      rw [List.foldl_cons, ih hrest, lub_le_iff hu, List.forall_mem_cons, and_assoc]

theorem joinAll_eq_some_iff :
    joinAll vs = .ok (some r) ↔ (∃ u, u ∈ vs) ∧ IsLUB {u | u ∈ vs} r := by
  cases vs with
  | nil => simp [joinAll]
  | cons v vs =>
      rcases joinAll_cons_cases v vs with ⟨hsame, hok⟩ | ⟨u, hu, hne, herror⟩
      · have hlub : IsLUB {u | u ∈ v :: vs} (vs.foldl lub v) := by
          refine isLUB_iff_le_iff.2 fun c => ?_
          rw [foldl_lub_le_iff hsame, mem_upperBounds]
          simp
        rw [hok]
        constructor
        · intro h
          cases h
          exact ⟨⟨v, by simp⟩, hlub⟩
        · rintro ⟨_, hr⟩
          rw [hlub.unique hr]
      · -- an upper bound would be as wide as both values
        rw [herror]
        constructor
        · intro h
          cases h
        · rintro ⟨_, hr⟩
          have hvr : v ≤ r := hr.1 (by simp)
          have hur : u ≤ r := hr.1 (by simp [hu])
          exact absurd ((width_eq_of_le hur).trans (width_eq_of_le hvr).symm) hne

theorem joinAll_eq_none_iff : joinAll vs = .ok none ↔ ¬∃ u, u ∈ vs := by
  cases vs with
  | nil => simp [joinAll]
  | cons v vs =>
      rcases joinAll_cons_cases v vs with ⟨_, hok⟩ | ⟨_, _, _, herror⟩
      · simp [hok]
      · simp [herror]

/-- Neither the order of the values nor how often they occur matters to their join. -/
theorem joinAll_congr {result : Option Value} (h : ∀ u, u ∈ us ↔ u ∈ vs)
    (hus : joinAll us = .ok result) : joinAll vs = .ok result := by
  cases result with
  | none => simpa only [joinAll_eq_none_iff, h] using hus
  | some r => simpa only [joinAll_eq_some_iff, h] using hus

end Value

/-! ## Returns that are reached -/

def Analysis.Returns (a : Analysis) (m : Method) (v : Value) : Prop :=
  ∃ i kind F, m.code[i]? = some (.ret (some kind)) ∧ a.frame? i = some F ∧ F.top? = some v

theorem Analysis.mem_returned_iff {a : Analysis} {m : Method} {v : Value} :
    v ∈ Method.returned m.code.toList a.frames.toList ↔ a.Returns m v := by
  simp only [Method.mem_returned, Returns, frame?_eq_some, Array.getElem?_toList]

private theorem Method.mem_returned_zip {code : List (Insn Nat)} {frames : List (Option Frame)}
    {v : Value} :
    v ∈ returned code frames ↔
      ∃ kind F, (.ret (some kind), some F) ∈ code.zip frames ∧ F.top? = some v := by
  rw [mem_returned]
  simp only [List.mem_iff_getElem?, List.getElem?_zip_eq_some]
  constructor
  · rintro ⟨i, kind, F, hinsn, hF, htop⟩
    exact ⟨kind, F, ⟨i, hinsn, hF⟩, htop⟩
  · rintro ⟨kind, F, ⟨i, hinsn, hF⟩, htop⟩
    exact ⟨i, kind, F, hinsn, hF, htop⟩

private theorem Method.mem_returned_of_perm {code : List (Insn Nat)} {frames : List (Option Frame)}
    {pairs : List (Insn Nat × Option Frame)} (h : pairs.Perm (code.zip frames)) (v : Value) :
    v ∈ returned code frames ↔ v ∈ returned (pairs.map Prod.fst) (pairs.map Prod.snd) := by
  simp only [mem_returned_zip, ← List.zip_of_prod rfl rfl, h.mem_iff]

namespace Config

variable {cfg : Config σ} {m : Method} {start : σ} {a : Analysis}

theorem analyze_framed_iff (h : (cfg.analyze m start).1 = .ok a) (i : Nat) :
    (a.frame? i).isSome = true ↔ m.Reached i := by
  obtain ⟨g, seed, _, hgraph, hseed, houtcome⟩ := analyze_outcome h
  obtain ⟨hstopped, result, _, rfl⟩ := outcome_ok houtcome
  obtain ⟨hcoherent, rfl⟩ := Method.graph_ok_iff.1 hgraph
  rw [← hcoherent.toEnclosed.reachable_iff]
  exact solved_framed_iff hgraph hseed cfg start hstopped i

theorem analyze_top? (h : (cfg.analyze m start).1 = .ok a) {i : Nat} {kind : Kind}
    (hinsn : m.code[i]? = some (.ret (some kind))) {F : Frame} (hF : a.frame? i = some F) :
    ∃ v, F.top? = some v ∧ v.width = kind.width := by
  obtain ⟨g, seed, _, hgraph, hseed, houtcome⟩ := analyze_outcome h
  obtain ⟨hstopped, result, _, rfl⟩ := outcome_ok houtcome
  exact (solved_closed hgraph hseed cfg start hstopped).top?_of_ret hinsn hF

theorem analyze_joinAll (h : (cfg.analyze m start).1 = .ok a) :
    Value.joinAll (Method.returned m.code.toList a.frames.toList) = .ok a.result := by
  obtain ⟨g, seed, _, _, _, houtcome⟩ := analyze_outcome h
  obtain ⟨_, result, hresult, rfl⟩ := outcome_ok houtcome
  exact hresult

theorem analyze_returned_iff (h : (cfg.analyze m start).1 = .ok a) {w : Width} :
    (∃ v, a.Returns m v ∧ v.width = w) ↔
      ∃ i kind, m.Reached i ∧ m.code[i]? = some (.ret (some kind)) ∧ kind.width = w := by
  obtain ⟨g, seed, _, hgraph, hseed, houtcome⟩ := analyze_outcome h
  obtain ⟨hstopped, result, _, rfl⟩ := outcome_ok houtcome
  obtain ⟨hcoherent, rfl⟩ := Method.graph_ok_iff.1 hgraph
  simp only [← Analysis.mem_returned_iff, ← hcoherent.toEnclosed.reachable_iff]
  exact solved_returned_iff hgraph hseed cfg start hstopped

theorem analyze_result_eq_some_iff (h : (cfg.analyze m start).1 = .ok a) {r : Value} :
    a.result = some r ↔ (∃ v, a.Returns m v) ∧ IsLUB {v | a.Returns m v} r := by
  simp only [← Analysis.mem_returned_iff]
  rw [← Value.joinAll_eq_some_iff, analyze_joinAll h, Except.ok.injEq]

theorem analyze_result_isSome_iff (h : (cfg.analyze m start).1 = .ok a) :
    a.result.isSome = true ↔ ∃ v, a.Returns m v := by
  simp only [← Analysis.mem_returned_iff]
  rw [← not_iff_not, ← Value.joinAll_eq_none_iff, analyze_joinAll h, Except.ok.injEq]
  simp

/--
There is a result exactly when a return of a value is reached.  Every such return
finds a value of its width on top of its stack, and the result is the least upper
bound of these values.  It stays the same if the instructions are listed in another
order, each with its frame, and any two analyses that find the same values returned
have the same result.
-/
theorem analyze_result_isLUB (h : (cfg.analyze m start).1 = .ok a) :
    (∀ i, a.isReachable i = true ↔ m.Reached i) ∧
    (a.result.isSome = true ↔ ∃ i kind, m.Reached i ∧ m.code[i]? = some (.ret (some kind))) ∧
    (∀ i kind, m.Reached i → m.code[i]? = some (.ret (some kind)) →
      ∃ F v, a.frame? i = some F ∧ F.top? = some v ∧ v.width = kind.width) ∧
    (∀ r, a.result = some r → IsLUB {v | a.Returns m v} r) ∧
    (∀ pairs : List (Insn Nat × Option Frame), pairs.Perm (m.code.toList.zip a.frames.toList) →
      Value.joinAll (Method.returned (pairs.map Prod.fst) (pairs.map Prod.snd)) = .ok a.result) ∧
    ∀ (τ : Type) (cfg' : Config τ) (m' : Method) (start' : τ) (a' : Analysis),
      (cfg'.analyze m' start').1 = .ok a' → (∀ v, a.Returns m v ↔ a'.Returns m' v) →
        a'.result = a.result := by
  have hjoin := analyze_joinAll h
  refine ⟨analyze_framed_iff h, ?_, ?_, ?_, ?_, ?_⟩
  · rw [analyze_result_isSome_iff h]
    constructor
    · rintro ⟨v, hv⟩
      obtain ⟨i, kind, hi, hinsn, _⟩ := (analyze_returned_iff h).1 ⟨v, hv, rfl⟩
      exact ⟨i, kind, hi, hinsn⟩
    · rintro ⟨i, kind, hi, hinsn⟩
      obtain ⟨v, hv, _⟩ := (analyze_returned_iff h).2 ⟨i, kind, hi, hinsn, rfl⟩
      exact ⟨v, hv⟩
  · intro i kind hi hinsn
    obtain ⟨F, hF⟩ := Option.isSome_iff_exists.1 ((analyze_framed_iff h i).2 hi)
    obtain ⟨v, htop, hwidth⟩ := analyze_top? h hinsn hF
    exact ⟨F, v, hF, htop, hwidth⟩
  · intro r hr
    exact ((analyze_result_eq_some_iff h).1 hr).2
  · intro pairs hpairs
    exact Value.joinAll_congr (Method.mem_returned_of_perm hpairs) hjoin
  · intro τ cfg' m' start' a' h' hsame
    simp only [← Analysis.mem_returned_iff] at hsame
    exact Except.ok.inj ((analyze_joinAll h').symm.trans (Value.joinAll_congr hsame hjoin))

end Config

/-- Two returns, one of them after a division that may throw, a handler that returns too, and a
return of another width that is never reached. -/
def settle : Method where
  owner := "Order"
  name := "settle"
  type := ⟨[.base .int], some (.base .int)⟩
  access := .publicStatic
  maxLocals := 1
  maxStack := none
  code := #[.load .int 0, .branch .eq 4, .const (.int 7), .ret (some .int), .const (.int 14),
    .const (.int 2), .binary .int .div, .ret (some .int), .const (.long 1), .ret (some .long),
    .stack .pop, .const (.int 0), .ret (some .int)]
  handlers := [⟨6, 7, 10, some "java/lang/ArithmeticException"⟩]

private theorem settle_analyze :
    ∃ a, (({} : Config Unit).analyze settle ()).1 = .ok a ∧ a.result = some (.unresolved .one) ∧
      a.isReachable 12 = true ∧ a.isReachable 9 = false := by
  have hanalyze : (({} : Config Unit).analyze settle ()).1.map
      (fun a => (a.result, a.isReachable 12, a.isReachable 9)) =
      .ok (some (.unresolved .one), true, false) := by cbv
  obtain ⟨a, ha, heq⟩ := Analysis.exists_of_map hanalyze
  simp only [Prod.mk.injEq] at heq
  exact ⟨a, ha, heq⟩

theorem settle_result_isLUB :
    ∃ a, (({} : Config Unit).analyze settle ()).1 = .ok a ∧ settle.Reached 12 ∧
      ¬settle.Reached 9 ∧ a.result = some (.unresolved .one) ∧
      IsLUB {v | a.Returns settle v} (.unresolved .one) ∧
      (∃ F v, a.frame? 12 = some F ∧ F.top? = some v ∧ v.width = .one) ∧
      Value.joinAll (Method.returned ((settle.code.toList.zip a.frames.toList).reverse.map Prod.fst)
        ((settle.code.toList.zip a.frames.toList).reverse.map Prod.snd)) =
          .ok (some (.unresolved .one)) := by
  obtain ⟨a, ha, hresult, htwelve, hnine⟩ := settle_analyze
  obtain ⟨hreached, _, htops, hlub, horder, _⟩ := Config.analyze_result_isLUB ha
  have hreached₁₂ := (hreached 12).1 htwelve
  refine ⟨a, ha, hreached₁₂, ?_, hresult, hlub _ hresult, htops 12 .int hreached₁₂ rfl, ?_⟩
  · rw [← hreached 9, hnine]
    decide
  · rw [horder _ (List.reverse_perm _), hresult]

/-! ## The declared type -/

def Method.ReturnsDeclared (m : Method) : Prop :=
  ∀ i kind, m.Reached i → m.code[i]? = some (.ret (some kind)) →
    ∃ t, m.type.result = some t ∧ kind.width = t.width

namespace Config

variable {cfg : Config σ} {m : Method} {start : σ} {a : Analysis}

theorem analyze_result_width (h : (cfg.analyze m start).1 = .ok a) {r v : Value}
    (hr : a.result = some r) (hv : a.Returns m v) : r.width = v.width :=
  (Value.width_eq_of_le (((analyze_result_eq_some_iff h).1 hr).2.1 hv)).symm

/--
A method without a result has none, and a result is as wide as the declared type,
exactly if every return that is reached agrees with the declared type.
-/
theorem analyze_result_declared_iff (h : (cfg.analyze m start).1 = .ok a) :
    ((m.type.result = none → a.result = none) ∧
      ∀ t v, m.type.result = some t → a.result = some v → v.width = t.width) ↔
        m.ReturnsDeclared := by
  constructor
  · rintro ⟨hvoid, hdeclared⟩ i kind hi hinsn
    obtain ⟨v, hv, hwidth⟩ := (analyze_returned_iff h).2 ⟨i, kind, hi, hinsn, rfl⟩
    obtain ⟨r, hr⟩ := Option.isSome_iff_exists.1 ((analyze_result_isSome_iff h).2 ⟨v, hv⟩)
    cases htype : m.type.result with
    | none =>
        rw [hvoid htype] at hr
        cases hr
    | some t =>
        refine ⟨t, rfl, ?_⟩
        rw [← hwidth, ← analyze_result_width h hr hv]
        exact hdeclared t r htype hr
  · intro hreturns
    have hdeclared {r : Value} (hr : a.result = some r) :
        ∃ t, m.type.result = some t ∧ r.width = t.width := by
      obtain ⟨v, hv⟩ := ((analyze_result_eq_some_iff h).1 hr).1
      obtain ⟨i, kind, hi, hinsn, hwidth⟩ := (analyze_returned_iff h).1 ⟨v, hv, rfl⟩
      rw [analyze_result_width h hr hv, ← hwidth]
      exact hreturns i kind hi hinsn
    constructor
    · intro hvoid
      by_contra hne
      obtain ⟨r, hr⟩ := Option.ne_none_iff_exists'.1 hne
      obtain ⟨t, ht, _⟩ := hdeclared hr
      cases hvoid.symm.trans ht
    · intro t r ht hr
      obtain ⟨t', ht', hwidth⟩ := hdeclared hr
      cases ht.symm.trans ht'
      exact hwidth

end Config

def stray : Method where
  owner := "Demo"
  name := "f"
  type := ⟨[], none⟩
  access := .publicStatic
  maxLocals := 0
  maxStack := none
  code := #[.const (.int 1), .ret (some .int)]
  handlers := []

private theorem stray_result :
    (({} : Config Unit).analyze stray ()).1.map Analysis.result = .ok (some (.const (.int 1))) := by
  cbv

def oversized : Method :=
  { stray with
    type := ⟨[], some (.base .int)⟩
    code := #[.const (.long 1), .ret (some .long)] }

theorem stray_settle_declared :
    (∃ a, (({} : Config Unit).analyze stray ()).1 = .ok a ∧ a.result ≠ none ∧
      ¬stray.ReturnsDeclared) ∧
    ∃ a, (({} : Config Unit).analyze settle ()).1 = .ok a ∧ settle.ReturnsDeclared := by
  constructor
  · obtain ⟨a, ha, hresult⟩ := Analysis.exists_of_map stray_result
    refine ⟨a, ha, by simp [hresult], ?_⟩
    rw [← Config.analyze_result_declared_iff ha]
    rintro ⟨hvoid, _⟩
    cases hresult.symm.trans (hvoid rfl)
  · obtain ⟨a, ha, hresult, _⟩ := settle_analyze
    refine ⟨a, ha, (Config.analyze_result_declared_iff ha).1 ⟨?_, ?_⟩⟩
    · rintro ⟨⟩
    · rintro _ v ⟨⟩ hv
      cases hresult.symm.trans hv
      rfl

/-- An analysis may find a result where none is declared, and one that is too wide. -/
theorem stray_result_undeclared :
    (∃ a, (({} : Config Unit).analyze stray ()).1 = .ok a ∧
      ¬(stray.type.result = none → a.result = none)) ∧
    ∃ a, (({} : Config Unit).analyze oversized ()).1 = .ok a ∧
      ¬∀ t v, oversized.type.result = some t → a.result = some v → v.width = t.width := by
  constructor
  · obtain ⟨a, ha, hresult⟩ := Analysis.exists_of_map stray_result
    refine ⟨a, ha, fun hvoid => ?_⟩
    cases hresult.symm.trans (hvoid rfl)
  · have hanalyze : (({} : Config Unit).analyze oversized ()).1.map Analysis.result =
        .ok (some (.const (.long 1))) := by cbv
    obtain ⟨a, ha, hresult⟩ := Analysis.exists_of_map hanalyze
    refine ⟨a, ha, fun hwidth => ?_⟩
    cases hwidth _ _ rfl hresult

end FrameFlow
