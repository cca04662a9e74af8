import FrameFlow.Graph.Blocks

/-!
# Reading the listing of blocks

Every number and every name in the listing is followed by a character that cannot
belong to it.  So a line tells where its parts end, and the lines where they end
themselves: a listing can be read in one way only.
-/

namespace FrameFlow

/-! ## Where a part of a text ends -/

namespace Text

private theorem toString_eq (text : String) : toString text = text := rfl

/-- The text is empty or begins with a character of another kind. -/
def Ends (kind : Char → Bool) (cs : List Char) : Prop :=
  ∀ c ∈ cs.head?, kind c = false

theorem ends_cons {kind : Char → Bool} {c : Char} {cs : List Char} (h : kind c = false) :
    Ends kind (c :: cs) := by
  simpa [Ends] using h

variable {kind : Char → Bool} {xs ys r s : List Char}

private theorem takeWhile_append_of_ends (hxs : ∀ c ∈ xs, kind c = true) (hr : Ends kind r) :
    (xs ++ r).takeWhile kind = xs := by
  rw [List.takeWhile_append_of_pos hxs]
  cases r with
  | nil => simp
  | cons c r => simp [hr c rfl]

private theorem append_inj_of_ends (hxs : ∀ c ∈ xs, kind c = true) (hys : ∀ c ∈ ys, kind c = true)
    (hr : Ends kind r) (hs : Ends kind s) (h : xs ++ r = ys ++ s) : xs = ys ∧ r = s := by
  have heq : xs = ys := by
    rw [← takeWhile_append_of_ends hxs hr, h, takeWhile_append_of_ends hys hs]
  subst heq
  exact ⟨rfl, List.append_cancel_left h⟩

private theorem toDigits_append_inj {n k : Nat} (hr : Ends Char.isDigit r)
    (hs : Ends Char.isDigit s)
    (h : Nat.toDigits 10 n ++ r = Nat.toDigits 10 k ++ s) : n = k ∧ r = s := by
  have hdigits : ∀ (i : Nat), ∀ c ∈ Nat.toDigits 10 i, c.isDigit = true := fun i c hc =>
    Nat.isDigit_of_mem_toDigits (by decide) (by decide) hc
  obtain ⟨heq, hrest⟩ := append_inj_of_ends (hdigits n) (hdigits k) hr hs h
  refine ⟨?_, hrest⟩
  have hvalue := congrArg (fun cs => Nat.ofDigitChars 10 cs 0) heq
  simpa only [Nat.ofDigitChars_ten_toDigits] using hvalue

end Text

open Text

/-! ## The blocks in a line -/

def furtherBlocks (indices : List Nat) : List Char :=
  indices.flatMap fun index => ',' :: ' ' :: 'B' :: Nat.toDigits 10 index

private theorem blockText_toList (index : Nat) :
    (blockText index).toList = 'B' :: Nat.toDigits 10 index := by
  simp [blockText, toString_eq]

private theorem listed_blocks_toList (index : Nat) (indices : List Nat) :
    (Text.listed ((index :: indices).map blockText)).toList =
      'B' :: (Nat.toDigits 10 index ++ furtherBlocks indices) := by
  induction indices generalizing index with
  | nil => simp [Text.listed, furtherBlocks, blockText_toList]
  | cons next indices ih =>
      have htail := ih next
      simp only [Text.listed, List.map_cons] at htail ⊢
      rw [String.intercalate_cons_cons, String.toList_append, htail]
      simp [furtherBlocks, blockText_toList]

private theorem ends_furtherBlocks (indices : List Nat) (r : List Char) :
    Ends Char.isDigit (furtherBlocks indices ++ '\n' :: r) := by
  cases indices with
  | nil => exact ends_cons rfl
  | cons index indices => exact ends_cons rfl

private theorem furtherBlocks_inj {ks js : List Nat} {r s : List Char}
    (h : furtherBlocks ks ++ '\n' :: r = furtherBlocks js ++ '\n' :: s) : ks = js ∧ r = s := by
  induction ks generalizing js with
  | nil =>
      cases js with
      | nil => simpa [furtherBlocks] using h
      | cons j js => simp [furtherBlocks] at h
  | cons k ks ih =>
      cases js with
      | nil => simp [furtherBlocks] at h
      | cons j js =>
          simp only [furtherBlocks, List.flatMap_cons, List.cons_append, List.append_assoc,
            List.cons.injEq, true_and] at h
          obtain ⟨rfl, hrest⟩ :=
            toDigits_append_inj (ends_furtherBlocks ks r) (ends_furtherBlocks js s) h
          obtain ⟨rfl, hr⟩ := ih hrest
          exact ⟨rfl, hr⟩

def arrowChars : List Nat → List Char
  | [] => []
  | index :: indices =>
      ' ' :: '-' :: '>' :: ' ' :: 'B' :: (Nat.toDigits 10 index ++ furtherBlocks indices)

private theorem arrowChars_inj {ks js : List Nat} {r s : List Char}
    (h : arrowChars ks ++ '\n' :: r = arrowChars js ++ '\n' :: s) : ks = js ∧ r = s := by
  cases ks with
  | nil =>
      cases js with
      | nil => simpa [arrowChars] using h
      | cons j js => simp [arrowChars] at h
  | cons k ks =>
      cases js with
      | nil => simp [arrowChars] at h
      | cons j js =>
          simp only [arrowChars, List.cons_append, List.cons.injEq, true_and] at h
          have hblocks : furtherBlocks (k :: ks) ++ '\n' :: r =
              furtherBlocks (j :: js) ++ '\n' :: s := by
            simp only [furtherBlocks, List.flatMap_cons, List.cons_append, List.cons.injEq,
              true_and]
            exact h
          exact furtherBlocks_inj hblocks

/-! ## Lines -/

def markChars (reachable : Bool) : List Char :=
  if reachable then [] else " unreachable".toList

private theorem ends_markChars (reachable : Bool) (indices : List Nat) (r : List Char) :
    Ends Char.isAlpha (markChars reachable ++ (arrowChars indices ++ '\n' :: r)) := by
  cases reachable with
  | false => exact ends_cons rfl
  | true =>
      cases indices with
      | nil => exact ends_cons rfl
      | cons index indices => exact ends_cons rfl

private theorem markChars_inj {u v : Bool} {ks js : List Nat} {r s : List Char}
    (h : markChars u ++ (arrowChars ks ++ '\n' :: r) =
      markChars v ++ (arrowChars js ++ '\n' :: s)) : u = v ∧ ks = js ∧ r = s := by
  have hmixed : ∀ (is : List Nat) (t t' : List Char),
      markChars false ++ t' ≠ markChars true ++ (arrowChars is ++ '\n' :: t) := by
    intro is t t'
    cases is <;> simp [markChars, arrowChars]
  cases u with
  | false =>
      cases v with
      | false => exact ⟨rfl, arrowChars_inj (List.append_cancel_left h)⟩
      | true => exact absurd h (hmixed js s _)
  | true =>
      cases v with
      | false => exact absurd h.symm (hmixed ks r _)
      | true => exact ⟨rfl, arrowChars_inj (List.append_cancel_left h)⟩

private theorem Flow.text_injective : Function.Injective Flow.text := by
  intro f f' h
  cases f <;> cases f' <;> simp_all [text]

private theorem Flow.text_append_inj {f f' : Flow} {r s : List Char} (hr : Ends Char.isAlpha r)
    (hs : Ends Char.isAlpha s) (h : f.text.toList ++ r = f'.text.toList ++ s) :
    f = f' ∧ r = s := by
  have hletters : ∀ (f : Flow), ∀ c ∈ f.text.toList, c.isAlpha = true := by
    intro f
    rw [← List.all_eq_true]
    cases f <;> decide +kernel
  obtain ⟨heq, hrest⟩ := append_inj_of_ends (hletters f) (hletters f') hr hs h
  exact ⟨Flow.text_injective (String.toList_inj.1 heq), hrest⟩

namespace BlockEntry

private theorem text_toList (entry : BlockEntry) (r : List Char) :
    entry.text.toList ++ r =
      'B' :: (Nat.toDigits 10 entry.block.index ++
        ' ' :: '[' :: '#' :: (Nat.toDigits 10 entry.block.start ++
          '.' :: '.' :: '#' :: (Nat.toDigits 10 entry.block.stop ++
            ')' :: ' ' :: (entry.exit.text.toList ++
              (markChars entry.reachable ++ (arrowChars entry.successors ++ '\n' :: r)))))) := by
  have hmark : (if entry.reachable then "" else " unreachable").toList =
      markChars entry.reachable := by
    cases entry.reachable <;> rfl
  have harrow : (if entry.successors.isEmpty then ""
      else " -> " ++ Text.listed (entry.successors.map blockText)).toList =
        arrowChars entry.successors := by
    cases entry.successors with
    | nil => rfl
    | cons index indices =>
        simp only [List.isEmpty_cons, Bool.false_eq_true, if_false, String.toList_append,
          listed_blocks_toList]
        rfl
  simp only [text, positionText, toString_eq, Nat.toString_eq_repr, String.toList_append, hmark,
    harrow, blockText_toList, Nat.toList_repr]
  simp

example : (⟨⟨5, 8, 10⟩, .unconditional, false, [5, 12]⟩ : BlockEntry).text =
    "B5 [#8..#10) UnconditionalBranch unreachable -> B5, B12\n" := by
  decide +kernel

private theorem text_append_inj {a b : BlockEntry} {r s : List Char}
    (h : a.text.toList ++ r = b.text.toList ++ s) : a = b ∧ r = s := by
  rw [text_toList, text_toList] at h
  simp only [List.cons.injEq, true_and] at h
  obtain ⟨hindex, h⟩ := toDigits_append_inj (ends_cons rfl) (ends_cons rfl) h
  simp only [List.cons.injEq, true_and] at h
  obtain ⟨hstart, h⟩ := toDigits_append_inj (ends_cons rfl) (ends_cons rfl) h
  simp only [List.cons.injEq, true_and] at h
  obtain ⟨hstop, h⟩ := toDigits_append_inj (ends_cons rfl) (ends_cons rfl) h
  simp only [List.cons.injEq, true_and] at h
  obtain ⟨hexit, h⟩ := Flow.text_append_inj (ends_markChars _ _ _) (ends_markChars _ _ _) h
  obtain ⟨hreachable, hsuccessors, hrest⟩ := markChars_inj h
  obtain ⟨⟨_, _, _⟩, _, _, _⟩ := a
  obtain ⟨⟨_, _, _⟩, _, _, _⟩ := b
  cases hindex
  cases hstart
  cases hstop
  cases hexit
  cases hreachable
  cases hsuccessors
  exact ⟨rfl, hrest⟩

/-- A listing tells its entries. -/
theorem join_text_inj {as bs : List BlockEntry}
    (h : String.join (as.map text) = String.join (bs.map text)) : as = bs := by
  induction as generalizing bs with
  | nil =>
      cases bs with
      | nil => rfl
      | cons b bs =>
          have hchars := congrArg String.toList h
          simp [text_toList] at hchars
  | cons a as ih =>
      have hchars := congrArg String.toList h
      cases bs with
      | nil => simp [text_toList] at hchars
      | cons b bs =>
          simp only [List.map_cons, String.join_cons, String.toList_append] at hchars
          obtain ⟨rfl, hrest⟩ := text_append_inj hchars
          rw [ih (String.toList_inj.1 hrest)]

end BlockEntry

end FrameFlow
