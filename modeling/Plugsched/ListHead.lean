/-
Circular doubly linked lists in the nodes themselves, as `struct list_head`.

The links are two maps on nodes; nothing is assumed about nodes that were never
initialised.  `Closed` sets of nodes cannot be left by following links, `IsList`
says which nodes a list holds:

* `Closed.initListHead`, `Closed.addTail`, `Closed.delInit` — the operations
  keep a closed set closed, up to the node they bring in;
* `isList_initListHead` — an initialised list is empty;
* `next_delInit` — a node taken out of its list follows itself.
-/
import Mathlib.Data.List.Chain
import Mathlib.Data.Set.Insert
import Mathlib.Logic.Function.Basic

namespace ListHead

variable {α : Type*}

structure Links (α : Type*) where
  next : α → α
  prev : α → α

namespace Links

variable [DecidableEq α]

/-- `INIT_LIST_HEAD`. -/
def initListHead (l : Links α) (n : α) : Links α where
  next := Function.update l.next n n
  prev := Function.update l.prev n n

/-- `__list_add(new, prev, next)`. -/
def insertBetween (l : Links α) (new prev next : α) : Links α where
  next := Function.update (Function.update l.next new next) prev new
  prev := Function.update (Function.update l.prev new prev) next new

/-- `list_add_tail(new, head)`. -/
def addTail (l : Links α) (new head : α) : Links α :=
  l.insertBetween new (l.prev head) head

/-- `__list_del(prev, next)`. -/
def join (l : Links α) (prev next : α) : Links α where
  next := Function.update l.next prev next
  prev := Function.update l.prev next prev

/-- `list_del_init(entry)`. -/
def delInit (l : Links α) (entry : α) : Links α :=
  (l.join (l.prev entry) (l.next entry)).initListHead entry

end Links

/-- The links of nodes in `G` stay in `G`. -/
def Closed (l : Links α) (G : Set α) : Prop :=
  ∀ n ∈ G, l.next n ∈ G ∧ l.prev n ∈ G

theorem closed_empty (l : Links α) : Closed l ∅ := fun _ hn => hn.elim

namespace Closed

variable [DecidableEq α] {l : Links α} {G : Set α}

/-- A map into `G` stays one when it is changed to values in `G`. -/
theorem update_mem {f : α → α} {n m x : α} (h : n ≠ x → f n ∈ G) (hm : m ∈ G) :
    Function.update f x m n ∈ G := by
  by_cases hn : n = x
  · rw [hn, Function.update_self]
    exact hm
  · rw [Function.update_of_ne hn]
    exact h hn

theorem initListHead (h : Closed l G) (n : α) : Closed (l.initListHead n) (insert n G) := by
  have hself : n ∈ insert n G := Set.mem_insert n G
  intro m hm
  have hold : m ≠ n → l.next m ∈ insert n G ∧ l.prev m ∈ insert n G := fun hne =>
    (h m (Set.mem_of_mem_insert_of_ne hm hne)).imp (Set.mem_insert_of_mem n)
      (Set.mem_insert_of_mem n)
  exact ⟨update_mem (fun hne => (hold hne).1) hself, update_mem (fun hne => (hold hne).2) hself⟩

theorem addTail (h : Closed l G) {head : α} (hhead : head ∈ G) (new : α) :
    Closed (l.addTail new head) (insert new G) := by
  have hself : new ∈ insert new G := Set.mem_insert new G
  have hhead' : head ∈ insert new G := Set.mem_insert_of_mem new hhead
  have hlast : l.prev head ∈ insert new G := Set.mem_insert_of_mem new (h head hhead).2
  intro m hm
  have hold : m ≠ new → l.next m ∈ insert new G ∧ l.prev m ∈ insert new G := fun hne =>
    (h m (Set.mem_of_mem_insert_of_ne hm hne)).imp (Set.mem_insert_of_mem new)
      (Set.mem_insert_of_mem new)
  exact ⟨update_mem (fun _ => update_mem (fun hne => (hold hne).1) hhead') hself,
    update_mem (fun _ => update_mem (fun hne => (hold hne).2) hlast) hself⟩

theorem delInit (h : Closed l G) {entry : α} (hentry : entry ∈ G) :
    Closed (l.delInit entry) G := by
  obtain ⟨hnext, hprev⟩ := h entry hentry
  intro m hm
  exact ⟨update_mem (fun _ => update_mem (fun _ => (h m hm).1) hnext) hentry,
    update_mem (fun _ => update_mem (fun _ => (h m hm).2) hprev) hentry⟩

end Closed

/-! ### The nodes of a list -/

/-- From `head` on, the links lead through `nodes` and back. -/
structure IsList (l : Links α) (head : α) (nodes : List α) : Prop where
  nodup : (head :: nodes).Nodup
  chain : (head :: (nodes ++ [head])).IsChain fun a b => l.next a = b ∧ l.prev b = a

section IsList

variable {l : Links α} {head : α}

theorem isList_nil_iff : IsList l head [] ↔ l.next head = head ∧ l.prev head = head :=
  ⟨fun h => by simpa using h.chain, fun h => ⟨by simp, by simpa using h⟩⟩

theorem IsList.next_head {x : α} {rest : List α} (h : IsList l head (x :: rest)) :
    l.next head = x := by
  have hchain := h.chain
  rw [List.cons_append, List.isChain_cons_cons] at hchain
  exact hchain.1.1

variable [DecidableEq α]

theorem isList_initListHead (l : Links α) (head : α) : IsList (l.initListHead head) head [] :=
  isList_nil_iff.mpr ⟨Function.update_self .., Function.update_self ..⟩

/-- A loop that stands on a node while it is deleted does not get away from it. -/
theorem next_delInit (l : Links α) (entry : α) : (l.delInit entry).next entry = entry :=
  Function.update_self ..

end IsList

end ListHead
