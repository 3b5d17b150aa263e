/-
# Doubly linked lists (`plnode/ds/double_linked_list.h`)

The nodes live in a heap: a pointer is an address or null, and `none` stands for the
undefined effect of following a null pointer or one to a deleted node.

`Holds l as` : the pointers of `l` form a doubly linked list of the nodes `as`.  Each
operation is described by what it does to this list.
-/
import Pweb.Klink.Message
import Pweb.Foundation.LinkedList

namespace Klink

/-- `DLLNode`. -/
structure DllNode where
  key : OverlayId
  value : HostAddress
  prev : Option ℕ
  next : Option ℕ

/-- `DoublyLinkedList`, with the nodes that its pointers lead to. -/
structure DoublyLinkedList where
  nodes : ℕ → Option DllNode
  head : Option ℕ
  tail : Option ℕ

namespace DoublyLinkedList

/-! ## Operations -/

/-- The node behind a pointer. -/
def deref (l : DoublyLinkedList) (ptr : Option ℕ) : Option DllNode := ptr.bind l.nodes

/-- `ptr->next = m`. -/
def setNext (l : DoublyLinkedList) (ptr m : Option ℕ) : Option DoublyLinkedList := do
  let a ← ptr
  let node ← l.nodes a
  return { l with nodes := Function.update l.nodes a (some { node with next := m }) }

/-- `ptr->prev = m`. -/
def setPrev (l : DoublyLinkedList) (ptr m : Option ℕ) : Option DoublyLinkedList := do
  let a ← ptr
  let node ← l.nodes a
  return { l with nodes := Function.update l.nodes a (some { node with prev := m }) }

/-- The four assignments that end `append2Head` and `move2Head`. -/
def linkHead (l : DoublyLinkedList) (node : ℕ) : Option DoublyLinkedList := do
  let l ← l.setNext (some node) l.head
  let l ← l.setPrev l.head (some node)
  let l := { l with head := some node }
  l.setPrev l.head none

/-- `append2Head`. -/
def append2Head (l : DoublyLinkedList) (node : ℕ) : Option DoublyLinkedList :=
  if l.head = none then do
    let l := { l with head := some node, tail := some node }
    let l ← l.setNext l.tail none
    l.setPrev l.head none
  else
    l.linkHead node

/-- `tail = tail->prev; tail->next = NULL`, in `removeTail` and `move2Head`. -/
def dropTail (l : DoublyLinkedList) : Option DoublyLinkedList := do
  let last ← l.deref l.tail
  let l := { l with tail := last.prev }
  l.setNext l.tail none

/-- `removeTail`; a single node is deleted. -/
def removeTail (l : DoublyLinkedList) : Option DoublyLinkedList :=
  if l.tail = l.head then
    match l.tail with
    | none => some { l with head := none, tail := none }
    | some a => some ⟨Function.update l.nodes a none, none, none⟩
  else do
    let temp := l.tail
    let l ← l.dropTail
    l.setPrev temp none

/-- `node->prev->next = node->next; node->next->prev = node->prev`, in `move2Head`. -/
def bypass (l : DoublyLinkedList) (node : ℕ) : Option DoublyLinkedList := do
  let n ← l.deref (some node)
  let l ← l.setNext n.prev n.next
  let n ← l.deref (some node)
  l.setPrev n.next n.prev

/-- `move2Head`. -/
def move2Head (l : DoublyLinkedList) (node : ℕ) : Option DoublyLinkedList :=
  if l.head = none ∨ l.tail = none then some l
  else if l.head = some node then some l
  else do
    let l ← (if l.tail = some node then l.dropTail else l.bypass node)
    l.linkHead node

/-! ## Pointers and contents -/

/-- The pointers of the nodes. -/
def next (l : DoublyLinkedList) (a : ℕ) : Option ℕ := (l.nodes a).bind DllNode.next

def prev (l : DoublyLinkedList) (a : ℕ) : Option ℕ := (l.nodes a).bind DllNode.prev

/-- The key and the value in a node. -/
def entry (l : DoublyLinkedList) (a : ℕ) : Option (OverlayId × HostAddress) :=
  (l.nodes a).map fun node => (node.key, node.value)

/-- The pointers form a list of the nodes `as`, none of which is deleted. -/
structure Holds (l : DoublyLinkedList) (as : List ℕ) : Prop where
  linked : DoublyLinked l.next l.prev l.head l.tail as
  allocated : ∀ a ∈ as, (l.entry a).isSome

variable {l l' : DoublyLinkedList} {as u v : List ℕ} {a p z : ℕ} {m : Option ℕ}

theorem isSome_entry : (l.entry a).isSome ↔ ∃ node, l.nodes a = some node := by
  rw [entry, Option.isSome_map, Option.isSome_iff_exists]

/-- Replacing a node by one with the same key and value. -/
theorem replace_node {node : DllNode} (hnode : l.nodes a = some node) {n : DllNode}
    (hkey : n.key = node.key) (hvalue : n.value = node.value)
    (hl' : l' = { l with nodes := Function.update l.nodes a (some n) }) :
    l'.next = Function.update l.next a n.next ∧
      l'.prev = Function.update l.prev a n.prev ∧ l'.entry = l.entry := by
  subst hl'
  refine ⟨?_, ?_, ?_⟩
  · exact Function.comp_update (fun n : Option DllNode => n.bind DllNode.next) _ _ _
  · exact Function.comp_update (fun n : Option DllNode => n.bind DllNode.prev) _ _ _
  · refine (Function.comp_update (Option.map fun n : DllNode => (n.key, n.value)) _ _ _).trans ?_
    exact Function.update_eq_self_iff.mpr (by simp [hnode, hkey, hvalue])

/-- **Writing `next`.** -/
theorem setNext_eq (h : (l.entry a).isSome) (m : Option ℕ) : ∃ l', l.setNext (some a) m = some l' ∧
    l'.next = Function.update l.next a m ∧ l'.prev = l.prev ∧ l'.entry = l.entry ∧
    l'.head = l.head ∧ l'.tail = l.tail := by
  obtain ⟨node, hnode⟩ := isSome_entry.mp h
  obtain ⟨hnext, hprev, hentry⟩ :=
    replace_node hnode (n := { node with next := m }) rfl rfl rfl
  refine ⟨_, ?_, hnext, hprev.trans ?_, hentry, rfl, rfl⟩
  · rw [setNext, Option.bind_eq_bind, Option.bind_some, hnode]
    rfl
  · exact Function.update_eq_self_iff.mpr (by rw [prev, hnode]; rfl)

/-- **Writing `prev`.** -/
theorem setPrev_eq (h : (l.entry a).isSome) (m : Option ℕ) : ∃ l', l.setPrev (some a) m = some l' ∧
    l'.next = l.next ∧ l'.prev = Function.update l.prev a m ∧ l'.entry = l.entry ∧
    l'.head = l.head ∧ l'.tail = l.tail := by
  obtain ⟨node, hnode⟩ := isSome_entry.mp h
  obtain ⟨hnext, hprev, hentry⟩ :=
    replace_node hnode (n := { node with prev := m }) rfl rfl rfl
  refine ⟨_, ?_, hnext.trans ?_, hprev, hentry, rfl, rfl⟩
  · rw [setPrev, Option.bind_eq_bind, Option.bind_some, hnode]
    rfl
  · exact Function.update_eq_self_iff.mpr (by rw [next, hnode]; rfl)

/-! ## What the operations do to the list -/

/-- **A new first node before the others.** -/
theorem linkHead_spec (h : l.Holds as) (hne : as ≠ []) (ha : a ∉ as)
    (halloc : (l.entry a).isSome) :
    ∃ l', l.linkHead a = some l' ∧ l'.Holds (a :: as) ∧ l'.entry = l.entry := by
  have hz : l.head = some (as.head hne) := by rw [h.linked.head_eq, List.head?_eq_some_head]
  have hzalloc := h.allocated _ (List.head_mem hne)
  generalize as.head hne = z at hz hzalloc
  obtain ⟨l₁, hset₁, hnext₁, hprev₁, hentry₁, hhead₁, htail₁⟩ := setNext_eq halloc l.head
  rw [← hentry₁] at hzalloc halloc
  obtain ⟨l₂, hset₂, hnext₂, hprev₂, hentry₂, hhead₂, htail₂⟩ := setPrev_eq hzalloc (some a)
  rw [← hentry₂] at halloc
  obtain ⟨l₃, hset₃, hnext₃, hprev₃, hentry₃, hhead₃, htail₃⟩ :=
    setPrev_eq (l := { l₂ with head := some a }) (show (l₂.entry a).isSome from halloc) none
  have hentry : l₃.entry = l.entry := hentry₃.trans (hentry₂.trans hentry₁)
  refine ⟨l₃, ?_, ⟨?_, ?_⟩, hentry⟩
  · rw [← hhead₁.trans hz] at hset₂
    rw [linkHead, hset₁]
    show (l₁.setPrev l₁.head (some a) >>= _) = some l₃
    rw [hset₂]
    exact hset₃
  · have hnext : l₃.next = Function.update l.next a (some z) := by
      rw [hnext₃, ← hz, ← hnext₁, ← hnext₂]
      rfl
    have hprev : l₃.prev = Function.update (Function.update l.prev z (some a)) a none := by
      rw [hprev₃, ← hprev₁, ← hprev₂]
      rfl
    have hlinked := h.linked
    rw [hz] at hlinked
    rw [hnext, hprev, hhead₃, htail₃]
    show DoublyLinked _ _ (some a) l₂.tail (a :: as)
    rw [htail₂, htail₁]
    exact hlinked.pushFront ha
  · rw [hentry]
    exact List.forall_mem_cons.mpr ⟨by rwa [hentry₂, hentry₁] at halloc, h.allocated⟩

/-- A new node leaves the list alone. -/
theorem Holds.allocate (h : l.Holds as) (ha : a ∉ as) (node : DllNode) :
    Holds { l with nodes := Function.update l.nodes a (some node) } as := by
  have hother : ∀ b ∈ as, Function.update l.nodes a (some node) b = l.nodes b := by
    intro b hb
    apply Function.update_of_ne
    rintro rfl
    exact ha hb
  refine ⟨h.linked.frame ?_ ?_, ?_⟩
  · intro b hb
    exact congrArg (fun n : Option DllNode => n.bind DllNode.next) (hother b hb)
  · intro b hb
    exact congrArg (fun n : Option DllNode => n.bind DllNode.prev) (hother b hb)
  · intro b hb
    have hentry := congrArg (Option.map fun n : DllNode => (n.key, n.value)) (hother b hb)
    have halloc := h.allocated b hb
    rw [entry, ← hentry] at halloc
    exact halloc

theorem entry_allocate (l : DoublyLinkedList) (a : ℕ) (node : DllNode) :
    entry { l with nodes := Function.update l.nodes a (some node) }
      = Function.update l.entry a (some (node.key, node.value)) :=
  Function.comp_update (Option.map fun n : DllNode => (n.key, n.value)) _ _ _

/-- **`append2Head`** puts a node in front. -/
theorem append2Head_spec (h : l.Holds as) (ha : a ∉ as) (halloc : (l.entry a).isSome) :
    ∃ l', l.append2Head a = some l' ∧ l'.Holds (a :: as) ∧ l'.entry = l.entry := by
  rw [append2Head]
  by_cases hne : as ≠ []
  · rw [if_neg (by rwa [h.linked.head_eq, List.head?_eq_none_iff])]
    exact linkHead_spec h hne ha halloc
  · obtain rfl : as = [] := not_not.mp hne
    rw [if_pos (show l.head = none from h.linked.head_eq)]
    obtain ⟨l₁, hset₁, hnext₁, hprev₁, hentry₁, hhead₁, htail₁⟩ :=
      setNext_eq (l := ⟨l.nodes, some a, some a⟩) halloc none
    have halloc₁ : (l₁.entry a).isSome := by rwa [hentry₁]
    obtain ⟨l₂, hset₂, hnext₂, hprev₂, hentry₂, hhead₂, htail₂⟩ := setPrev_eq halloc₁ none
    have hentry : l₂.entry = l.entry := hentry₂.trans hentry₁
    refine ⟨l₂, ?_, ⟨?_, ?_⟩, hentry⟩
    · show (setNext ⟨l.nodes, some a, some a⟩ (some a) none >>= _) = some l₂
      rw [hset₁]
      show l₁.setPrev l₁.head none = some l₂
      rw [hhead₁]
      exact hset₂
    · rw [hnext₂, hnext₁, hprev₂, hprev₁, hhead₂, hhead₁, htail₂, htail₁]
      exact DoublyLinked.singleton _ _ a
    · rw [hentry]
      exact List.forall_mem_singleton.mpr halloc

/-- The pointers in a node. -/
theorem exists_node (h : (l.entry a).isSome) :
    ∃ node, l.nodes a = some node ∧ l.next a = node.next ∧ l.prev a = node.prev := by
  obtain ⟨node, hnode⟩ := isSome_entry.mp h
  refine ⟨node, hnode, ?_, ?_⟩
  · rw [next, hnode, Option.bind_some]
  · rw [prev, hnode, Option.bind_some]

/-- The last of several nodes is taken out. -/
theorem dropTail_spec (h : l.Holds (as ++ [p, z])) :
    ∃ l', l.dropTail = some l' ∧ l'.Holds (as ++ [p]) ∧ l'.entry = l.entry := by
  have htail : l.tail = some z := by
    rw [h.linked.tail_eq, List.append_cons, List.getLast?_concat]
  obtain ⟨last, hlast, -, hprev⟩ := exists_node (h.allocated z (by simp))
  rw [h.linked.links_after.2] at hprev
  obtain ⟨l₁, hset, hnext₁, hprev₁, hentry, hhead, htail₁⟩ :=
    setNext_eq (l := { l with tail := some p }) (h.allocated p (by simp)) none
  refine ⟨l₁, ?_, ⟨?_, ?_⟩, hentry⟩
  · rw [dropTail, deref, htail, Option.bind_some, hlast]
    show setNext { l with tail := last.prev } last.prev none = _
    rw [← hprev]
    exact hset
  · rw [hnext₁, hprev₁, hhead, htail₁]
    exact h.linked.dropLast
  · rw [hentry]
    intro b hb
    apply h.allocated
    rw [List.append_cons]
    exact List.mem_append_left _ hb

/-- **`removeTail`** removes the last of several nodes. -/
theorem removeTail_spec (h : l.Holds (as ++ [p, z])) :
    ∃ l', l.removeTail = some l' ∧ l'.Holds (as ++ [p]) ∧ l'.entry = l.entry := by
  obtain ⟨l₁, hdrop, hholds, hentry₁⟩ := dropTail_spec h
  have hnodup := h.linked.nodup
  rw [List.append_cons, ← List.concat_eq_append, List.nodup_concat] at hnodup
  have htail : l.tail = some z := by
    rw [h.linked.tail_eq, List.append_cons, List.getLast?_concat]
  have hhead : l.head ≠ some z := by
    rw [h.linked.head_eq, List.append_cons, List.head?_append_of_ne_nil _ (by simp)]
    exact fun hmem => hnodup.1 (List.mem_of_head? hmem)
  have hz : (l₁.entry z).isSome := by
    rw [hentry₁]
    exact h.allocated z (by simp)
  obtain ⟨l₂, hset, hnext₂, hprev₂, hentry₂, hhead₂, htail₂⟩ := setPrev_eq hz none
  have hentry : l₂.entry = l.entry := hentry₂.trans hentry₁
  refine ⟨l₂, ?_, ⟨?_, ?_⟩, hentry⟩
  · rw [removeTail, if_neg (by rwa [htail, eq_comm]), hdrop, htail]
    exact hset
  · -- the node taken out is not in the list
    rw [hnext₂, hprev₂, hhead₂, htail₂]
    refine hholds.linked.frame (fun _ _ => rfl) fun b hb => Function.update_of_ne ?_ _ _
    rintro rfl
    exact hnodup.1 hb
  · rw [hentry₂]
    exact hholds.allocated

/-- A node between two others is taken out. -/
theorem bypass_spec {q : ℕ} (h : l.Holds (u ++ p :: a :: q :: v)) :
    ∃ l', l.bypass a = some l' ∧ l'.Holds (u ++ p :: q :: v) ∧ l'.entry = l.entry := by
  obtain ⟨hnexta, hpreva⟩ := h.linked.links_after
  have hne : a ≠ p := by
    have hnodup := h.linked.nodup
    rw [List.nodup_middle, List.nodup_cons, List.mem_append, not_or, List.mem_cons, not_or]
      at hnodup
    exact fun heq => hnodup.1.2.1 heq.symm
  have halloc := h.allocated a (by simp)
  obtain ⟨n, hn, hnext, hprev⟩ := exists_node halloc
  obtain ⟨l₁, hset₁, hnext₁, hprev₁, hentry₁, hhead₁, htail₁⟩ :=
    setNext_eq (h.allocated p (by simp)) (some q)
  rw [← hentry₁] at halloc
  obtain ⟨n', hn', hnext', hprev'⟩ := exists_node halloc
  have hq : (l₁.entry q).isSome := by
    rw [hentry₁]
    exact h.allocated q (by simp)
  obtain ⟨l₂, hset₂, hnext₂, hprev₂, hentry₂, hhead₂, htail₂⟩ := setPrev_eq hq (some p)
  have hentry : l₂.entry = l.entry := hentry₂.trans hentry₁
  refine ⟨l₂, ?_, ⟨?_, ?_⟩, hentry⟩
  · rw [bypass, deref, Option.bind_some, hn]
    show (l.setNext n.prev n.next >>= _) = some l₂
    rw [← hnext, ← hprev, hnexta, hpreva, List.head?_cons, hset₁]
    show (l₁.nodes a >>= _) = some l₂
    rw [hn']
    show l₁.setPrev n'.next n'.prev = some l₂
    rw [← hnext', ← hprev', hnext₁, hprev₁, Function.update_of_ne hne, hnexta, hpreva]
    exact hset₂
  · rw [hnext₂, hnext₁, hprev₂, hprev₁, hhead₂, hhead₁, htail₂, htail₁]
    exact h.linked.unlink
  · rw [hentry]
    intro b hb
    apply h.allocated
    simp only [List.mem_append, List.mem_cons] at hb ⊢
    tauto

/-- **`move2Head`** moves a node to the front. -/
theorem move2Head_spec (h : l.Holds (u ++ a :: v)) :
    ∃ l', l.move2Head a = some l' ∧ l'.Holds (a :: (u ++ v)) ∧ l'.entry = l.entry := by
  have hhead := h.linked.head_eq
  have htail := h.linked.tail_eq
  have halloc := h.allocated a (by simp)
  have hnot : a ∉ u ++ v := by
    have hnodup := h.linked.nodup
    rw [List.nodup_middle, List.nodup_cons] at hnodup
    exact hnodup.1
  have hsome : ¬ (l.head = none ∨ l.tail = none) := by
    rw [hhead, htail]
    simp
  rw [move2Head, if_neg hsome]
  rcases List.eq_nil_or_concat u with rfl | ⟨u, p, rfl⟩
  · rw [if_pos (show l.head = some a from hhead)]
    exact ⟨l, rfl, h, rfl⟩
  · rw [List.concat_eq_append] at h hhead htail hnot ⊢
    have hne : l.head ≠ some a := by
      rw [hhead, List.head?_append_of_ne_nil _ (by simp)]
      exact fun hmem => hnot (List.mem_append_left _ (List.mem_of_head? hmem))
    rw [if_neg hne]
    -- take the node out, then put it in front
    have hout : ∃ l₁, (if l.tail = some a then l.dropTail else l.bypass a) = some l₁ ∧
        l₁.Holds (u ++ [p] ++ v) ∧ l₁.entry = l.entry := by
      rw [List.append_assoc, List.singleton_append] at h
      cases v with
      | nil =>
          rw [if_pos (by rw [htail, List.getLast?_concat]), List.append_nil]
          exact dropTail_spec h
      | cons q v =>
          have hlast : l.tail ≠ some a := by
            rw [htail, List.getLast?_append_cons, List.getLast?_cons_cons]
            exact fun hmem => hnot (List.mem_append_right _ (List.mem_of_getLast? hmem))
          rw [if_neg hlast, List.append_assoc, List.singleton_append]
          exact bypass_spec h
    obtain ⟨l₁, hl₁, hholds, hentry₁⟩ := hout
    rw [← hentry₁] at halloc
    obtain ⟨l₂, hlink, hholds₂, hentry₂⟩ := linkHead_spec hholds (by simp) hnot halloc
    refine ⟨l₂, ?_, hholds₂, hentry₂.trans hentry₁⟩
    rw [hl₁]
    exact hlink

end DoublyLinkedList

end Klink
