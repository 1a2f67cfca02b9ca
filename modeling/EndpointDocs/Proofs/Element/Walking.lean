import EndpointDocs.Element

/-!
# The walk through a tree

The walk notes the elements that it meets, and keeps on a stack the elements that it has still to
visit, the next one last. The elements that the stack stands for are those on it, each in front of
its own descendants. A visit notes the first of these and leaves the others (`ahead_push`), so what
a walk comes to is known from its start on (`toList_walk`): it lists the descendants of an element
as recursion does (`descendants_eq`).
-/

namespace EndpointDocs.Element

theorem preorder_eq (e : Element) : e.preorder = preorderAll e.children := by
  cases e
  rfl

theorem preorderAll_append (es fs : List Element) :
    preorderAll (es ++ fs) = preorderAll es ++ preorderAll fs := by
  induction es with
  | nil => rfl
  | cons e rest ih => simp only [List.cons_append, preorderAll, ih, List.append_assoc]

/-- What is still to be noted: the elements of the stack from the last one on, each in front of its
own descendants. -/
def ahead (stack : Array Element) : List Element := preorderAll stack.toList.reverse

@[simp]
theorem ahead_empty : ahead #[] = [] := rfl

/-- The children are put on the stack from the last one on, so the first of them comes next. -/
theorem ahead_push (below : Array Element) (e : Element) :
    ahead (below.push e) = e :: ahead (below ++ e.children.reverse) := by
  simp only [ahead, Array.toList_push, Array.toList_appendList, List.reverse_append,
    List.reverse_reverse, List.reverse_singleton, List.singleton_append, preorderAll,
    preorderAll_append, preorder_eq]

/-- The induction is on the visits that are left. -/
theorem toList_walk (found stack : Array Element) :
    (walk found stack).toList = found.toList ++ ahead stack := by
  fun_induction walk found stack with
  | case1 found stack hnone =>
    rw [Array.back?_eq_none_iff.1 hnone, ahead_empty, List.append_nil]
  | case2 found stack e hlast ih =>
    obtain ⟨below, rfl⟩ := Array.back?_eq_some_iff.1 hlast
    rw [ih, Array.pop_push, ahead_push, Array.toList_push, List.append_assoc,
      List.singleton_append]

theorem descendants_eq (e : Element) : e.descendants = e.preorder := by
  rw [descendants, toList_walk, preorder_eq, ahead, List.toList_toArray, List.reverse_reverse,
    List.nil_append]

end EndpointDocs.Element
