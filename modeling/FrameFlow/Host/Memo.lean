import FrameFlow.Host

/-!
# Remembered answers

A host can be asked through a memo, which passes each distinct call on once and
repeats the answer from then on, errors included.
-/

namespace FrameFlow

abbrev Call := MethodRef × List HostValue

structure Memo (σ : Type) where
  world : σ
  answers : List (Call × Answer)

namespace Memo

variable {σ : Type}

def fresh (world : σ) : Memo σ :=
  ⟨world, []⟩

def size (memo : Memo σ) : Nat :=
  memo.answers.length

def clear (memo : Memo σ) : Memo σ :=
  { memo with answers := [] }

def text (memo : Memo σ) : String :=
  s!"CachingHost \x7b entries: {memo.size}, .. \x7d"

end Memo

namespace Host

variable {σ : Type}

def remembered (host : Host σ) : Host (Memo σ) := fun m args memo =>
  match memo.answers.find? fun entry => entry.1 = (m, args) with
  | some entry => (entry.2, memo)
  | none =>
      let (answer, world) := host m args memo.world
      (answer, ⟨world, memo.answers ++ [((m, args), answer)]⟩)

def unremembered (host : Host σ) : Host (Memo σ) := fun m args memo =>
  let (answer, world) := host m args memo.world
  (answer, { memo with world := world })

end Host

end FrameFlow
