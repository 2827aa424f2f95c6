import Mathlib.Data.List.Sort

namespace CubeCore.EntityGuard

variable (groupOf : Int → Int)

def cmpGuidFunc (i j : Int) : Bool :=
  if groupOf i ≠ groupOf j then decide (groupOf i < groupOf j) else decide (i < j)

/-- `i` comes before `j` in the order of `SortEntity`, or is `j`. -/
def NotAfter (i j : Int) : Prop := cmpGuidFunc groupOf j i = false

instance : DecidableRel (NotAfter groupOf) := fun _ _ => inferInstanceAs (Decidable (_ = _))

def sortEntity (es : List Int) : List Int := es.insertionSort (NotAfter groupOf)

def maxLockedGroup (guard : List Int) : Int :=
  guard.foldl (fun top id => if groupOf id > top then groupOf id else top) (-1)

/-- `CheckContainAllIDs`; `CheckContainAllLock` is the same test on the GUIds of
loaded entities. -/
def checkContainAllIDs (guard ids : List Int) : Bool :=
  if ids = [] ∨ guard = [] then true
  else ids.all fun id => decide (id ∈ guard) || decide (groupOf id > maxLockedGroup groupOf guard)

variable {groupOf} {i j : Int}

theorem cmpGuidFunc_iff :
    cmpGuidFunc groupOf i j = true ↔ groupOf i < groupOf j ∨ groupOf i = groupOf j ∧ i < j := by
  unfold cmpGuidFunc
  split_ifs with heq
  · simp [heq]
  · have heq' : groupOf i = groupOf j := by simpa using heq
    simp [heq']

theorem cmpGuidFunc_irrefl (i : Int) : cmpGuidFunc groupOf i i = false := by
  simp [cmpGuidFunc]

theorem cmpGuidFunc_trans {k : Int} (hij : cmpGuidFunc groupOf i j = true)
    (hjk : cmpGuidFunc groupOf j k = true) : cmpGuidFunc groupOf i k = true := by
  rw [cmpGuidFunc_iff] at hij hjk ⊢
  omega

theorem notAfter_iff :
    NotAfter groupOf i j ↔ cmpGuidFunc groupOf i j = true ∨ i = j := by
  unfold NotAfter
  rw [← Bool.not_eq_true, cmpGuidFunc_iff, cmpGuidFunc_iff]
  constructor
  · intro h
    omega
  · rintro (h | rfl)
    · omega
    · omega

instance : Std.Total (NotAfter groupOf) := ⟨fun i j => by
  rw [notAfter_iff, notAfter_iff, cmpGuidFunc_iff, cmpGuidFunc_iff]
  omega⟩

instance : IsTrans Int (NotAfter groupOf) := ⟨fun i j k hij hjk => by
  rcases notAfter_iff.mp hij with hij | rfl
  · rcases notAfter_iff.mp hjk with hjk | rfl
    · exact notAfter_iff.mpr (.inl (cmpGuidFunc_trans hij hjk))
    · exact notAfter_iff.mpr (.inl hij)
  · exact hjk⟩

theorem sortEntity_pairwise (es : List Int) : (sortEntity groupOf es).Pairwise (NotAfter groupOf) :=
  List.pairwise_insertionSort _ es

theorem mem_sortEntity {es : List Int} {id : Int} : id ∈ sortEntity groupOf es ↔ id ∈ es :=
  List.mem_insertionSort _

theorem groupOf_le_maxLockedGroup {guard : List Int} {id : Int} (h : id ∈ guard) :
    groupOf id ≤ maxLockedGroup groupOf guard := by
  have hfold : ∀ (xs : List Int) (top : Int),
      top ≤ xs.foldl (fun top id => if groupOf id > top then groupOf id else top) top ∧
      ∀ x ∈ xs, groupOf x ≤
        xs.foldl (fun top id => if groupOf id > top then groupOf id else top) top := by
    intro xs
    induction xs with
    | nil => simp
    | cons y ys ih =>
      intro top
      simp only [List.foldl_cons, List.mem_cons, forall_eq_or_imp]
      obtain ⟨hle, hmem⟩ := ih (if groupOf y > top then groupOf y else top)
      split_ifs at hle with hgt
      · simp only [hgt, if_true] at hmem ⊢
        exact ⟨by omega, hle, hmem⟩
      · simp only [hgt, if_false] at hmem ⊢
        exact ⟨hle, by omega, hmem⟩
  exact (hfold guard (-1)).2 id h

theorem before_of_checkContainAllIDs {guard ids : List Int}
    (h : checkContainAllIDs groupOf guard ids = true) {id held : Int} (hid : id ∈ ids)
    (hnew : id ∉ guard) (hheld : held ∈ guard) : cmpGuidFunc groupOf held id = true := by
  unfold checkContainAllIDs at h
  split_ifs at h with hempty
  · rcases hempty with rfl | rfl
    · simp at hid
    · simp at hheld
  have hgroup := List.all_eq_true.mp h id hid
  simp only [hnew, decide_false, Bool.false_or, decide_eq_true_eq] at hgroup
  have hle : groupOf held ≤ maxLockedGroup groupOf guard := groupOf_le_maxLockedGroup hheld
  rw [cmpGuidFunc_iff]
  omega

end CubeCore.EntityGuard
