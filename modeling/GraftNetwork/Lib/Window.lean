import Mathlib.Data.List.DropRight
import Mathlib.Logic.Function.Basic

/-!
# Sliding windows and their counters

Two shapes of bounded history recur in the daemon: a list that keeps only its last `cap`
entries, which is `List.rtake`, and a counter map that tracks how often each entry occurs
in such a list. This module says how both behave under the operations that maintain them.

* `drop_concat_eq_rtake`, `rtake_concat_rtake`: dropping from the front to make room and
  then appending is `rtake` of the longer list, and appending to a trimmed list is trimming
  the longer one.
* `LabelsEndAt`: the entries of a window carry consecutive labels up to the newest;
  `LabelsEndAt.concat`, `LabelsEndAt.dropLast` and `LabelsEndAt.tail` are pushing the next
  label, popping the newest entry and dropping the oldest.
* `Tracks`: a counter map agrees with `List.count`; `Tracks.push` and `Tracks.pop` are the
  two updates, `Tracks.pos_head` is the fact that makes a decrement safe, and
  `Tracks.unique` says the list determines the map.
-/

namespace Window

variable {α : Type*}

/-- Dropping `l.length + 1 - cap` entries from the front and appending one entry keeps the
last `cap` entries of the longer list. -/
theorem drop_concat_eq_rtake (l : List α) (x : α) {cap : Nat} (hcap : 0 < cap) :
    l.drop (l.length + 1 - cap) ++ [x] = (l ++ [x]).rtake cap := by
  rw [List.rtake, List.length_append, List.length_singleton, List.drop_append_of_le_length]
  omega

theorem rtake_length_le (l : List α) (cap : Nat) : (l.rtake cap).length ≤ cap := by
  rw [List.rtake, List.length_drop]
  omega

theorem rtake_of_length_le {l : List α} {cap : Nat} (h : l.length ≤ cap) : l.rtake cap = l := by
  rw [List.rtake, Nat.sub_eq_zero_of_le h, List.drop_zero]

theorem rtake_rtake (l : List α) {m n : Nat} (h : n ≤ m) : (l.rtake m).rtake n = l.rtake n := by
  simp only [List.rtake, List.length_drop, List.drop_drop]
  congr 1
  omega

/-- Appending to a trimmed list and trimming again is trimming the whole list. -/
theorem rtake_concat_rtake (l : List α) (x : α) (cap : Nat) :
    (l.rtake cap ++ [x]).rtake cap = (l ++ [x]).rtake cap := by
  cases cap with
  | zero => simp [List.rtake_zero]
  | succ n =>
    rw [List.rtake_concat_succ, List.rtake_concat_succ, rtake_rtake l (Nat.le_succ n)]

theorem mem_of_mem_rtake {l : List α} {cap : Nat} {x : α} (h : x ∈ l.rtake cap) : x ∈ l :=
  List.mem_of_mem_drop h

/-! ## Windows of labelled entries -/

section Labels

variable {β : Type*} {l : List (Nat × β)} {top : Nat}

/-- The entries of `l`, oldest first, carry consecutive labels that end at `top` with the newest:
the entry `d` from the newest is labelled `top - d`. -/
def LabelsEndAt (l : List (Nat × β)) (top : Nat) : Prop :=
  ∀ d entry, l.reverse[d]? = some entry → entry.1 + d = top

theorem labelsEndAt_nil (top : Nat) : LabelsEndAt ([] : List (Nat × β)) top :=
  fun _ _ absent => by simp at absent

/-- The entry pushed after the newest carries the next label. -/
theorem LabelsEndAt.concat (labels : LabelsEndAt l top) (x : β) :
    LabelsEndAt (l ++ [(top + 1, x)]) (top + 1) := by
  intro d entry found
  rw [List.reverse_concat] at found
  cases d with
  | zero =>
    cases found
    rfl
  | succ d =>
    have label := labels d entry found
    omega

/-- Without the newest entry, the labels end one lower. -/
theorem LabelsEndAt.dropLast (labels : LabelsEndAt l top) : LabelsEndAt l.dropLast (top - 1) := by
  intro d entry found
  rw [← List.tail_reverse, List.getElem?_tail] at found
  have label := labels (d + 1) entry found
  omega

/-- Without the oldest entry, the labels end where they did. -/
theorem LabelsEndAt.tail (labels : LabelsEndAt l top) : LabelsEndAt l.tail top := by
  intro d entry found
  rw [← List.dropLast_reverse, List.getElem?_dropLast] at found
  split at found
  · exact labels d entry found
  · cases found

end Labels

variable [DecidableEq α]

/-- The counter map `counts` holds the multiplicity of every entry of `l`. -/
def Tracks (counts : α → Nat) (l : List α) : Prop := ∀ a, counts a = l.count a

theorem tracks_nil : Tracks (fun _ => 0) ([] : List α) := fun _ => rfl

theorem Tracks.push {counts : α → Nat} {l : List α} (h : Tracks counts l) (a : α) :
    Tracks (Function.update counts a (counts a + 1)) (l ++ [a]) := by
  intro b
  by_cases hb : b = a
  · subst hb
    simp [h b]
  · simp [Function.update_of_ne hb, h b, Ne.symm hb]

theorem Tracks.pop {counts : α → Nat} {a : α} {l : List α} (h : Tracks counts (a :: l)) :
    Tracks (Function.update counts a (counts a - 1)) l := by
  intro b
  by_cases hb : b = a
  · subst hb
    simp [h b, List.count_cons_self]
  · simp [Function.update_of_ne hb, h b, Ne.symm hb]

/-- Two counter maps that track the same list are equal. -/
theorem Tracks.unique {counts counts' : α → Nat} {l : List α} (h : Tracks counts l)
    (h' : Tracks counts' l) : counts = counts' :=
  funext fun a => (h a).trans (h' a).symm

/-- The head of a tracked list has a positive count. -/
theorem Tracks.pos_head {counts : α → Nat} {a : α} {l : List α} (h : Tracks counts (a :: l)) :
    1 ≤ counts a := by
  rw [h a, List.count_cons_self]
  omega

end Window
