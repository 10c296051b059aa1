import Mathlib.Data.Option.Basic
import Mathlib.Tactic.Common
import PinnedMap.Files.Tree

/-! A text that was written to a file is read from the same path. The new file stands in the way of no path, since no
path leads on from the place of a file. -/
namespace PinnedMap

private theorem toList_loop_bytes (bytes : ByteArray) (i : Nat) (before : List UInt8) :
    ByteArray.toList.loop bytes i before = before.reverse ++ bytes.data.toList.drop i := by
  fun_induction ByteArray.toList.loop bytes i before with
  | case1 i before more ih =>
    have inside : i < bytes.data.toList.length := by simpa using more
    rw [ih,List.drop_eq_getElem_cons inside]
    simp [ByteArray.get!,more]
  | case2 i before none =>
    have beyond : bytes.data.toList.length ≤ i := by simpa using Nat.le_of_not_lt none
    rw [List.drop_eq_nil_of_le beyond,List.append_nil]

theorem toList_bytes (bytes : ByteArray) : bytes.toList = bytes.data.toList := by
  change ByteArray.toList.loop bytes 0 [] = _
  rw [toList_loop_bytes]
  rfl

private theorem toArray_bytes (bytes : ByteArray) : (⟨bytes.toList.toArray⟩ : ByteArray) = bytes := by
  rw [toList_bytes]

theorem Entry.text?_ofText (text : String) : (Entry.ofText text).text? = some text := by
  change String.fromUTF8? ⟨text.toUTF8.toList.toArray⟩ = some text
  rw [toArray_bytes]
  exact dif_pos text.isValidUTF8

namespace FileTree

private theorem entry?_put_self {tree : FileTree} {place : Place} (below : place ≠ []) (entry : Entry) :
    FileTree.entry? (tree.put place entry) place = some entry := by
  unfold entry? put
  simp [below]

private theorem entry?_put_of_ne {tree : FileTree} {place other : Place} (apart : other ≠ place) (entry : Entry) :
    FileTree.entry? (tree.put place entry) other = tree.entry? other := by
  have missed : (other == place) = false := by simpa using apart
  unfold entry? put
  simp only [List.lookup_cons,missed]

private theorem follow_put {tree : FileTree} {place : Place} (noDirectory : tree.entry? place ≠ some .directory)
    (entry : Entry) {here found : Place} {names : List String} (followed : tree.follow here names = some found) :
    (tree.put place entry).follow here names = some found := by
  induction names generalizing here with
  | nil => exact followed
  | cons name names ih =>
    rw [follow] at followed ⊢
    by_cases directory : tree.entry? here = some .directory
    · have apart : here ≠ place := by
        rintro rfl
        exact noDirectory directory
      rw [if_neg (not_not.mpr directory)] at followed
      rw [entry?_put_of_ne apart,if_neg (not_not.mpr directory)]
      split_ifs at followed ⊢ with stay up long
      · exact ih followed
      · exact ih followed
      · exact ih followed
    · rw [if_pos directory] at followed
      contradiction

private theorem target?_spec {tree : FileTree} {path : String} {place : Place}
    (target : tree.target? path = some place) :
    tree.locate path = some place ∧ tree.entry? place ≠ some .directory := by
  unfold target? at target
  simp only [Option.bind_eq_bind,Option.bind_eq_some_iff,Option.guard_eq_some',Option.pure_def,Option.some.injEq] at target
  obtain ⟨_,_,found,located,_,noDirectory,rfl⟩ := target
  exact ⟨located,noDirectory⟩

private theorem locate_put {tree : FileTree} {path : String} {place : Place} (located : tree.locate path = some place)
    (noDirectory : tree.entry? place ≠ some .directory) (entry : Entry) :
    (tree.put place entry).locate path = some place := by
  unfold locate at located ⊢
  split_ifs at located ⊢ with usable
  exact follow_put noDirectory entry located

theorem text?_of_write {tree tree' : FileTree} {path text : String}
    (written : tree.write path text.toUTF8.toList = some tree') : tree'.files.text? path = some text := by
  obtain ⟨place,target,rfl⟩ := Option.map_eq_some_iff.mp written
  obtain ⟨located,noDirectory⟩ := target?_spec target
  have below : place ≠ [] := by
    rintro rfl
    exact noDirectory rfl
  unfold Files.text? files
  rw [locate_put located noDirectory,Option.bind_some,entry?_put_self below]
  exact Entry.text?_ofText text

end FileTree
end PinnedMap
