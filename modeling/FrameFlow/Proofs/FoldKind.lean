import FrameFlow.Const.Folding

/-!
# The kinds of folded constants

A fold that gives a constant gives one of the kind that the instruction
announces, so folding never changes the width of a value.
-/

namespace FrameFlow.Const

theorem binary_kind {kind : Kind} {op : BinaryOp} {a b c : Const}
    (h : binary kind op a b = some c) : c.kind = kind := by
  unfold binary at h
  split at h
  case h_6 => cases h
  all_goals
    obtain ⟨_, _, rfl⟩ := Option.map_eq_some_iff.1 h
    rfl

theorem negate_kind {kind : Kind} {a c : Const} (h : negate kind a = some c) :
    c.kind = kind := by
  unfold negate at h
  split at h
  case h_5 => cases h
  all_goals
    cases h
    rfl

theorem convert_kind {source target : Kind} {a c : Const}
    (h : convert source target a = some c) : c.kind = target := by
  unfold convert at h
  split at h
  case h_13 => cases h
  all_goals
    cases h
    rfl

theorem narrow_kind {target : Narrow} {a c : Const} (h : narrow target a = some c) :
    c.kind = .int := by
  unfold narrow at h
  split at h
  · cases target <;> cases h <;> rfl
  · cases h

theorem compare_kind {op : CompareOp} {a b c : Const} (h : compare op a b = some c) :
    c.kind = .int := by
  unfold compare at h
  split at h
  case h_4 => cases h
  all_goals
    cases h
    rfl

theorem width_of_kind {c : Const} {kind : Kind} (h : c.kind = kind) : c.width = kind.width := by
  rw [width, h]

end FrameFlow.Const
