import FrameFlow.Error
import FrameFlow.Frame.Script
import FrameFlow.Proofs.FrameOrder
import Mathlib.Order.Bounds.Basic
import Mathlib.Order.UpperLower.Basic

/-!
# Joins as least upper bounds

Not all values have a join, and not all frames can be merged.  Where the result
is there, it is the least upper bound, and it is missing only where there is no
upper bound at all.  Such an operation is commutative and associative, and one
side of these laws is missing exactly when the other one is.

Values of one width always have a join.  Frames with equally many locals can be
merged when their stacks agree in height and widths.
-/

namespace FrameFlow

/-! ## Partial joins -/

/-- An operation on an upper set that finds the least upper bound of what is bounded. -/
structure PartialJoin {α : Type} [PartialOrder α] (D : Set α) (f : α → α → Option α) : Prop where
  upper : IsUpperSet D
  isLUB : ∀ {a b c}, a ∈ D → b ∈ D → f a b = some c → IsLUB {a, b} c
  bounded : ∀ {a b c}, a ∈ D → b ∈ D → a ≤ c → b ≤ c → ∃ j, f a b = some j

section

variable {α : Type} [PartialOrder α] {D : Set α} {f : α → α → Option α} {a b c d j : α}

private theorem isLUB_pair_of_le (ha : a ≤ c) (hb : b ≤ c) (hleast : ∀ d, a ≤ d → b ≤ d → c ≤ d) :
    IsLUB {a, b} c := by
  refine isLUB_iff_le_iff.2 fun d => ?_
  simp only [upperBounds_insert, upperBounds_singleton, Set.mem_inter_iff, Set.mem_Ici]
  exact ⟨fun hc => ⟨ha.trans hc, hb.trans hc⟩, fun hd => hleast d hd.1 hd.2⟩

private theorem isLUB_pair_iff_of_isLUB (hj : IsLUB {a, b} j) :
    IsLUB {j, c} d ↔ IsLUB {a, b, c} d := by
  have hbounds := hj.upperBounds_eq
  simp only [upperBounds_insert, upperBounds_singleton] at hbounds
  simp only [IsLUB, upperBounds_insert, upperBounds_singleton, ← hbounds, Set.inter_assoc]

namespace PartialJoin

theorem eq_some_iff (h : PartialJoin D f) (ha : a ∈ D) (hb : b ∈ D) :
    f a b = some c ↔ IsLUB {a, b} c := by
  refine ⟨h.isLUB ha hb, fun hc => ?_⟩
  obtain ⟨j, hj⟩ := h.bounded ha hb (hc.1 (by simp)) (hc.1 (by simp))
  rw [hj, (h.isLUB ha hb hj).unique hc]

private theorem mem (h : PartialJoin D f) (ha : a ∈ D) (hb : b ∈ D) (hj : f a b = some j) : j ∈ D :=
  h.upper ((h.isLUB ha hb hj).1 (by simp)) ha

theorem comm (h : PartialJoin D f) (ha : a ∈ D) (hb : b ∈ D) : f a b = f b a := by
  refine Option.ext fun c => ?_
  rw [h.eq_some_iff ha hb, h.eq_some_iff hb ha, Set.pair_comm]

private theorem bind_eq_some_iff (h : PartialJoin D f) (ha : a ∈ D) (hb : b ∈ D) (hc : c ∈ D) :
    ((f a b).bind fun j => f j c) = some d ↔ IsLUB {a, b, c} d := by
  rw [Option.bind_eq_some_iff]
  constructor
  · rintro ⟨j, hj, hd⟩
    exact (isLUB_pair_iff_of_isLUB (h.isLUB ha hb hj)).1 (h.isLUB (h.mem ha hb hj) hc hd)
  · intro hd
    obtain ⟨j, hj⟩ := h.bounded ha hb (hd.1 (by simp)) (hd.1 (by simp))
    refine ⟨j, hj, (h.eq_some_iff (h.mem ha hb hj) hc).2 ?_⟩
    exact (isLUB_pair_iff_of_isLUB (h.isLUB ha hb hj)).2 hd

private theorem assoc (h : PartialJoin D f) (ha : a ∈ D) (hb : b ∈ D) (hc : c ∈ D) :
    ((f a b).bind fun j => f j c) = (f b c).bind (f a) := by
  have hswap : (f b c).bind (f a) = (f b c).bind fun j => f j a := by
    exact Option.bind_congr fun j hj => h.comm ha (h.mem hb hc hj)
  have hset : ({b, c, a} : Set α) = {a, b, c} := by
    rw [Set.pair_comm c a, Set.insert_comm b a]
  refine Option.ext fun d => ?_
  rw [hswap, h.bind_eq_some_iff ha hb hc, h.bind_eq_some_iff hb hc ha, hset]

end PartialJoin

end

/-! ## Values -/

namespace Value

theorem join?_partialJoin : PartialJoin Set.univ join? where
  upper := isUpperSet_univ
  isLUB _ _ h := by
    obtain ⟨hw, rfl⟩ := Frame.join?_eq_some h
    exact isLUB_pair_of_le (le_lub_left _ _) (le_lub_right hw) fun _ => lub_le
  bounded _ _ ha hb := by
    have hw := (width_eq_of_le ha).trans (width_eq_of_le hb).symm
    exact ⟨_, if_pos hw⟩

theorem join?_eq_some_iff {a b j : Value} : a.join? b = some j ↔ IsLUB {a, b} j :=
  join?_partialJoin.eq_some_iff trivial trivial

theorem join_eq_ok_iff {a b j : Value} : a.join b = .ok j ↔ a.join? b = some j := by
  unfold join
  cases a.join? b <;> simp

private theorem join_eq_error_iff {a b : Value} :
    (∃ e, a.join b = .error e) ↔ a.width ≠ b.width := by
  unfold join join?
  split <;> simp_all

private theorem join_of_width_eq {a b : Value} (h : a.width = b.width) : a.join b = .ok (a.lub b) :=
  join_eq_ok_iff.2 (if_pos h)

private theorem lub_comm {a b : Value} (h : a.width = b.width) : a.lub b = b.lub a := by
  have hcomm := join?_partialJoin.comm (a := a) (b := b) trivial trivial
  simpa [join?, h] using hcomm

private theorem lub_assoc {a b c : Value} (hab : a.width = b.width) (hbc : b.width = c.width) :
    (a.lub b).lub c = a.lub (b.lub c) := by
  have hassoc := join?_partialJoin.assoc (a := a) (b := b) (c := c) trivial trivial trivial
  simpa [join?, hab, hbc] using hassoc

/-! ### What a join still knows -/

private theorem isUnresolved_of_le {a b : Value} (h : a ≤ b) (hb : b.isUnresolved = false) :
    a.isUnresolved = false := by
  cases a with
  | unresolved w =>
      rw [eq_of_unresolved_le h] at hb
      exact hb
  | const _ => rfl
  | ref _ => rfl
  | sim _ => rfl

private theorem le_ofHost {a : Value} {v : HostValue} (h : a.host? = some v) : a ≤ ofHost v := by
  cases a with
  | const c =>
      cases h
      exact le_refl _
  | sim v' =>
      cases h
      cases v with
      | const c => exact sim_le_const c
      | object _ _ => exact le_refl _
  | unresolved _ => cases h
  | ref _ => cases h

private theorem host?_eq_of_le {a j : Value} (h : a ≤ j) (hj : j.isUnresolved = false) :
    a = j ∨ (a.isConcrete = true ∧ a.host? = j.host? ∧ j.isConcrete = true) := by
  rcases le_cases h with heq | htop | ⟨c, rfl, rfl⟩
  · exact .inl heq
  · rw [htop] at hj
    cases hj
  · exact .inr ⟨rfl, rfl, rfl⟩

private theorem join_known_iff {a b : Value} :
    (∃ j, a.join b = .ok j ∧ j.isUnresolved = false) ↔
      (a = b ∧ a.isUnresolved = false) ∨
        (a.isConcrete = true ∧ b.isConcrete = true ∧ a.host? = b.host?) := by
  simp only [join_eq_ok_iff, join?_eq_some_iff]
  constructor
  · rintro ⟨j, hj, hknown⟩
    have ha := host?_eq_of_le (hj.1 (by simp)) hknown (a := a)
    have hb := host?_eq_of_le (hj.1 (by simp)) hknown (a := b)
    rcases ha with rfl | ⟨hconcrete, hhost, hjoined⟩
    · rcases hb with rfl | ⟨hconcrete, hhost, hjoined⟩
      · exact .inl ⟨rfl, hknown⟩
      · exact .inr ⟨hjoined, hconcrete, hhost.symm⟩
    · rcases hb with rfl | ⟨hconcrete', hhost', _⟩
      · exact .inr ⟨hconcrete, hjoined, hhost⟩
      · exact .inr ⟨hconcrete, hconcrete', hhost.trans hhost'.symm⟩
  · intro h
    have hbound : ∃ u, a ≤ u ∧ b ≤ u ∧ u.isUnresolved = false := by
      rcases h with ⟨rfl, hknown⟩ | ⟨hconcrete, _, hhost⟩
      · exact ⟨a, le_refl a, le_refl a, hknown⟩
      · obtain ⟨v, hv⟩ := Option.isSome_iff_exists.1 hconcrete
        refine ⟨ofHost v, le_ofHost hv, le_ofHost (hhost ▸ hv), ?_⟩
        cases v <;> rfl
    obtain ⟨u, hau, hbu, hu⟩ := hbound
    obtain ⟨j, hj⟩ := join?_partialJoin.bounded trivial trivial hau hbu
    have hlub := join?_eq_some_iff.1 hj
    refine ⟨j, hlub, isUnresolved_of_le (hlub.2 ?_) hu⟩
    simp [upperBounds_insert, hau, hbu]

/--
Two values have a join exactly when they have one width.  On the values of one
width the join is idempotent, commutative and associative, the unresolved value
absorbs, and the join is the least upper bound in the order where `a ≤ b` when
joining them gives `b`.  It is not unresolved only if the values are equal, or are
known exactly and are the same for a host.
-/
theorem join_semilattice (a b c : Value) :
    ((∃ e, a.join b = .error e) ↔ a.width ≠ b.width) ∧
    a.join a = .ok a ∧
    (a.width = b.width → a.join b = b.join a) ∧
    (a.width = b.width → b.width = c.width →
      (a.join b >>= fun j => j.join c) = (b.join c >>= fun k => a.join k)) ∧
    (∀ w, a.width = w → a.join (unresolved w) = .ok (unresolved w)) ∧
    (a ≤ b ↔ a.join b = .ok b) ∧
    (∀ j, a.join b = .ok j → j.width = a.width ∧ j.width = b.width ∧ IsLUB {a, b} j) ∧
    ((∃ j, a.join b = .ok j ∧ j.isUnresolved = false) ↔
      (a = b ∧ a.isUnresolved = false) ∨
        (a.isConcrete = true ∧ b.isConcrete = true ∧ a.host? = b.host?)) := by
  refine ⟨join_eq_error_iff, ?_, fun h => ?_, fun hab hbc => ?_, fun w hw => ?_, ?_,
    fun j hj => ?_, join_known_iff⟩
  · rw [join_of_width_eq rfl, lub_self]
  · rw [join_of_width_eq h, join_of_width_eq h.symm, lub_comm h]
  · have hleft : (a.lub b).width = c.width := by rw [lub_width, hab, hbc]
    have hright : a.width = (b.lub c).width := by rw [lub_width, hab]
    calc (a.join b >>= fun j => j.join c)
        = (a.lub b).join c := by rw [join_of_width_eq hab]; rfl
      _ = .ok (a.lub (b.lub c)) := by rw [join_of_width_eq hleft, lub_assoc hab hbc]
      _ = a.join (b.lub c) := (join_of_width_eq hright).symm
      _ = (b.join c >>= fun k => a.join k) := by rw [join_of_width_eq hbc]; rfl
  · have htop := le_iff_lub.1 (le_unresolved hw)
    rw [join_of_width_eq htop.1, lub_comm htop.1, htop.2]
  · rw [le_iff_join, join_eq_ok_iff, join?_partialJoin.comm trivial trivial]
  · have hlub := join?_eq_some_iff.1 (join_eq_ok_iff.1 hj)
    exact ⟨(width_eq_of_le (hlub.1 (by simp))).symm, (width_eq_of_le (hlub.1 (by simp))).symm, hlub⟩

/-- The same not-a-number carried in two ways, and another one with other bits. -/
theorem join_notANumbers :
    (sim (.const (.double 0x7ff8000000000000))).join (const (.double 0x7ff8000000000000)) =
        .ok (const (.double 0x7ff8000000000000)) ∧
      IsLUB {sim (.const (.double 0x7ff8000000000000)), const (.double 0x7ff8000000000000)}
        (const (.double 0x7ff8000000000000)) ∧
      (const (.double 0x7ff8000000000000)).join (const (.double 0x7ff8000000000001)) =
        (const (.double 0x7ff8000000000001)).join (const (.double 0x7ff8000000000000)) ∧
      ((sim (.const (.double 0x7ff8000000000000))).join (const (.double 0x7ff8000000000000)) >>=
          fun j => j.join (const (.double 0x7ff8000000000001))) =
        ((const (.double 0x7ff8000000000000)).join (const (.double 0x7ff8000000000001)) >>=
          fun k => (sim (.const (.double 0x7ff8000000000000))).join k) := by
  obtain ⟨_, _, _, hassoc, _, _, hleast, _⟩ :=
    join_semilattice (sim (.const (.double 0x7ff8000000000000)))
      (const (.double 0x7ff8000000000000)) (const (.double 0x7ff8000000000001))
  obtain ⟨_, _, hcomm, _⟩ := join_semilattice (const (.double 0x7ff8000000000000))
    (const (.double 0x7ff8000000000001)) (const (.double 0x7ff8000000000001))
  exact ⟨rfl, (hleast _ rfl).2.2, hcomm rfl, hassoc rfl rfl⟩

end Value

/-! ## Stacks -/

namespace Frame

variable {F G H K : Frame} {s t u : List Value}

theorem joinStacks_eq_some_iff :
    joinStacks s t = some u ↔
      s.length = t.length ∧ List.zipWith Value.join? s t = u.map some := by
  induction s generalizing t u with
  | nil => cases t <;> cases u <;> simp [joinStacks]
  | cons a s ih =>
      cases t with
      | nil => simp [joinStacks]
      | cons b t =>
          simp only [joinStacks, List.length_cons, List.zipWith_cons_cons, Nat.add_right_cancel_iff]
          cases u with
          | nil =>
              simp only [List.map_nil, List.cons_ne_nil, and_false, iff_false]
              split <;> simp
          | cons v u =>
              rw [List.map_cons, List.cons.injEq, and_left_comm, ← ih]
              cases a.join? b <;> cases joinStacks s t <;> simp

private theorem joinStacks_getElem? (h : joinStacks s t = some u) {k : Nat} {a b : Value}
    (ha : s[k]? = some a) (hb : t[k]? = some b) : u[k]? = a.join? b := by
  have hentry := congrArg (·[k]?) (joinStacks_eq_some_iff.1 h).2
  simp only [List.getElem?_zipWith, List.getElem?_map, ha, hb] at hentry
  obtain ⟨v, hv, hjoin⟩ := Option.map_eq_some_iff.1 hentry.symm
  rw [hv, ← hjoin]

private theorem joinStacks_length (h : joinStacks s t = some u) :
    u.length = s.length ∧ u.length = t.length := by
  obtain ⟨hlength, hjoins⟩ := joinStacks_eq_some_iff.1 h
  have hu := congrArg List.length hjoins
  simp only [List.length_zipWith, List.length_map] at hu
  omega

private theorem joinStacks_eq_none_iff :
    joinStacks s t = none ↔ s.length ≠ t.length ∨
      ∃ (k : Nat) (a b : Value), s[k]? = some a ∧ t[k]? = some b ∧ a.width ≠ b.width := by
  constructor
  · intro hnone
    by_contra hagree
    simp only [not_or, not_not, not_exists, not_and] at hagree
    have hwidths : List.Forall₂ (fun a b => a.width = b.width) s t :=
      List.forall₂_iff_get.2 ⟨hagree.1, fun k hs ht =>
        hagree.2 k _ _ (List.getElem?_eq_getElem hs) (List.getElem?_eq_getElem ht)⟩
    obtain ⟨u, hu, _⟩ :=
      joinStacks_rel joinStable_width hwidths (List.forall₂_same.2 fun _ _ => rfl)
    rw [hnone] at hu
    cases hu
  · intro h
    cases hu : joinStacks s t with
    | none => rfl
    | some u =>
        obtain ⟨hs, ht⟩ := joinStacks_length hu
        rcases h with hlength | ⟨k, a, b, ha, hb, hwidth⟩
        · exact absurd (hs.symm.trans ht) hlength
        · have hentry := joinStacks_getElem? hu ha hb
          have hk : k < u.length := hs ▸ (List.getElem?_eq_some_iff.1 ha).1
          rw [List.getElem?_eq_getElem hk] at hentry
          exact absurd (join?_eq_some hentry.symm).1 hwidth

/-! ## Frames -/

def merged? (F G : Frame) : Option Frame :=
  (F.merge G).toOption.map Prod.fst

theorem merged?_eq_some_iff : F.merged? G = some H ↔ ∃ changed, F.merge G = .ok (H, changed) := by
  unfold merged?
  cases F.merge G with
  | error e => simp [Except.toOption]
  | ok x =>
      obtain ⟨H', changed⟩ := x
      simp [Except.toOption]

theorem merged?_partialJoin (limit : Option Nat) (size : Nat) :
    PartialJoin {F : Frame | F.limit = limit ∧ F.locals.length = size} merged? where
  upper _ _ hle hF := ⟨hle.limit.symm.trans hF.1, hle.size.symm.trans hF.2⟩
  isLUB hF hG h := by
    obtain ⟨changed, hmerge⟩ := merged?_eq_some_iff.1 h
    obtain ⟨hleF, hleG⟩ := le_merge ⟨hF.1.trans hG.1.symm, hF.2.trans hG.2.symm⟩ hmerge
    refine isLUB_pair_of_le hleF hleG fun K hFK hGK => ?_
    obtain ⟨H, _, hmerge', hHK⟩ := merge_rel joinStable_le hFK hGK
    rw [hmerge] at hmerge'
    cases hmerge'
    exact hHK
  bounded _ _ hFK hGK := by
    obtain ⟨H, changed, hmerge, _⟩ := merge_rel joinStable_le hFK hGK
    exact ⟨H, merged?_eq_some_iff.2 ⟨changed, hmerge⟩⟩

private theorem merged?_withLimit (limit limit' : Option Nat) (F G : Frame) :
    (F.withLimit limit).merged? (G.withLimit limit') = (F.merged? G).map (withLimit limit) := by
  unfold merged?
  rw [merge_withLimit]
  cases F.merge G <;> rfl

private theorem merged?_comm (hsize : F.locals.length = G.locals.length) :
    F.merged? G = (G.merged? F).map (withLimit F.limit) :=
  calc F.merged? G
      = (G.withLimit F.limit).merged? F :=
        (merged?_partialJoin F.limit F.locals.length).comm ⟨rfl, rfl⟩
          (b := G.withLimit F.limit) ⟨rfl, hsize.symm⟩
    _ = (G.merged? F).map (withLimit F.limit) := merged?_withLimit F.limit F.limit G F

private theorem merged?_assoc (hG : F.locals.length = G.locals.length)
    (hK : F.locals.length = K.locals.length) :
    ((F.merged? G).bind fun H => H.merged? K) = (G.merged? K).bind F.merged? :=
  calc ((F.merged? G).bind fun H => H.merged? K)
      = ((G.withLimit F.limit).merged? K).bind F.merged? :=
        (merged?_partialJoin F.limit F.locals.length).assoc ⟨rfl, rfl⟩
          (b := G.withLimit F.limit) (c := K.withLimit F.limit) ⟨rfl, hG.symm⟩ ⟨rfl, hK.symm⟩
    _ = ((G.merged? K).map (withLimit F.limit)).bind F.merged? :=
        congrArg (·.bind F.merged?) (merged?_withLimit F.limit K.limit G K)
    _ = (G.merged? K).bind F.merged? := Option.bind_map

structure Joined (F G H : Frame) : Prop where
  limit : H.limit = F.limit
  height : H.stack.length = F.stack.length ∧ H.stack.length = G.stack.length
  stack : ∀ (k : Nat) (a b : Value), F.stack[k]? = some a → G.stack[k]? = some b →
    H.stack[k]? = a.join? b
  size : H.locals.length = F.locals.length
  locals : ∀ (k : Nat) (x y : Option Value), F.locals[k]? = some x → G.locals[k]? = some y →
    H.locals[k]? = some (x.bind fun a => y.bind fun b => a.join? b)

private theorem mergeLocal_eq_bind (x y : Option Value) :
    mergeLocal x y = x.bind fun a => y.bind fun b => a.join? b := by
  cases x <;> cases y <;> rfl

private theorem merge_joined {changed : Bool} (h : F.merge G = .ok (H, changed)) :
    Joined F G H := by
  obtain ⟨stack, hstack, rfl, _⟩ := merge_cases h
  refine ⟨rfl, joinStacks_length hstack, fun k a b => joinStacks_getElem? hstack, by simp, ?_⟩
  intro k x y hx hy
  rw [mergeLocals_getElem?, hx, hy]
  exact congrArg some (mergeLocal_eq_bind x y)

private theorem merge_eq_error_iff {e : FrameError} :
    F.merge G = .error e ↔
      joinStacks F.stack G.stack = none ∧ e = .incompatibleStacks F.stack G.stack := by
  unfold merge
  cases joinStacks F.stack G.stack <;> simp [eq_comm]

private theorem merge_again (hsize : F.locals.length = G.locals.length) {changed : Bool}
    (h : F.merge G = .ok (H, changed)) : H.merge G = .ok (H, false) := by
  have hle := (le_merge (F := F) (G := G.withLimit F.limit) ⟨rfl, hsize⟩ h).2
  exact (merge_unchanged_iff (F := H) (G := G.withLimit F.limit) hle.toAlike.symm).2 hle

/--
Frames with equally many locals can be merged unless their stacks differ in
height or in the width of an entry, and a merge that fails leaves the frame as it
was.  Otherwise the frame becomes the least one above both, entry by entry and slot
by slot, and the flag says whether it has become another one.  Merging the same
frame again changes nothing.  As far as tables and stacks go, the order in which
frames are merged makes no difference.
-/
theorem merge_isLUB {F G : Frame} (hsize : F.locals.length = G.locals.length) :
    ((∃ e, F.merge G = .error e) ↔ F.stack.length ≠ G.stack.length ∨
      ∃ (k : Nat) (a b : Value),
        F.stack[k]? = some a ∧ G.stack[k]? = some b ∧ a.width ≠ b.width) ∧
    (∀ e, F.merge G = .error e → F.act (.merge G) = (.failed e, F)) ∧
    (∀ H changed, F.merge G = .ok (H, changed) →
      F.act (.merge G) = (.flag changed, H) ∧ IsLUB {F, G.withLimit F.limit} H ∧
      Joined F G H ∧ (changed = true ↔ H ≠ F) ∧ H.merge G = .ok (H, false)) ∧
    F.merge F = .ok (F, false) ∧
    F.merged? G = (G.merged? F).map (withLimit F.limit) ∧
    ∀ K : Frame, F.locals.length = K.locals.length →
      ((F.merged? G).bind fun H => H.merged? K) = (G.merged? K).bind F.merged? := by
  refine ⟨?_, fun e he => ?_, fun H changed hmerge => ⟨?_, ?_, merge_joined hmerge, ?_,
    merge_again hsize hmerge⟩, (merge_unchanged_iff (.refl F)).2 (le_refl F), merged?_comm hsize,
    fun K => merged?_assoc hsize⟩
  · rw [← joinStacks_eq_none_iff]
    simp [merge_eq_error_iff]
  · simp only [act, he]
    rfl
  · simp only [act, hmerge]
    rfl
  · exact (merged?_partialJoin F.limit F.locals.length).isLUB ⟨rfl, rfl⟩ ⟨rfl, hsize.symm⟩
      (merged?_eq_some_iff.2 ⟨changed, hmerge⟩)
  · obtain ⟨_, _, _, hflag⟩ := merge_cases hmerge
    rw [hflag, decide_eq_true_eq]

theorem merge_mixed :
    IsLUB {⟨[some (.const (.long 7)), none, some (.ref "Order")], [.sim (.const (.int 1))], none⟩,
        withLimit none
          ⟨[some (.const (.int 7)), none, some (.ref "Order")], [.const (.int 1)], some 4⟩}
      ⟨[none, none, some (.ref "Order")], [.const (.int 1)], none⟩ ∧
    merge ⟨[none, none, some (.ref "Order")], [.const (.int 1)], none⟩
        ⟨[some (.const (.int 7)), none, some (.ref "Order")], [.const (.int 1)], some 4⟩ =
      .ok (⟨[none, none, some (.ref "Order")], [.const (.int 1)], none⟩, false) ∧
    ∃ e, merge ⟨[none, none, some (.ref "Order")], [.const (.int 1)], none⟩
        ⟨[none, none, none], [.const (.long 1)], none⟩ = .error e := by
  obtain ⟨_, _, hmerged, _⟩ := merge_isLUB
    (F := ⟨[some (.const (.long 7)), none, some (.ref "Order")], [.sim (.const (.int 1))], none⟩)
    (G := ⟨[some (.const (.int 7)), none, some (.ref "Order")], [.const (.int 1)], some 4⟩) rfl
  obtain ⟨hfails, _⟩ := merge_isLUB
    (F := ⟨[none, none, some (.ref "Order")], [.const (.int 1)], none⟩)
    (G := ⟨[none, none, none], [.const (.long 1)], none⟩) rfl
  obtain ⟨_, hleast, _, _, hagain⟩ := hmerged _ _ rfl
  exact ⟨hleast, hagain, hfails.2 (.inr ⟨0, _, _, rfl, rfl, by decide⟩)⟩

end Frame

end FrameFlow
