import Mathlib.Data.List.Basic
import Mathlib.Logic.Function.Basic

/-!
# HexOS — intrusive lists

`kernel/kernel/list.c`: doubly linked lists whose links live inside the
nodes. A `struct list` is two pointers (`head`, `tail`); a `struct
list_node` is two links, a back pointer to the list that contains it and a
priority. Pointers to nodes and lists are identifiers of arbitrary types
`N` and `L`, the null pointer is `none`, and the memory that holds the
structs is one function for each field (`ListMem`).

Every function below performs the assignments of its C body in the same
order; a pointer that is read after it was written is read from the updated
memory.
-/

namespace Hexos

/-- The memory of all `struct list` (`head`, `tail`) and all `struct
list_node` (`next`, `prev`, `list`, `priority`). -/
structure ListMem (L N : Type) where
  head     : L → Option N
  tail     : L → Option N
  next     : N → Option N
  prev     : N → Option N
  list     : N → Option L
  priority : N → Int

namespace ListMem

variable {L N : Type} [DecidableEq L] [DecidableEq N]

/-- Every list is `LIST_INIT` and every node is zeroed. -/
def init : ListMem L N where
  head _ := none
  tail _ := none
  next _ := none
  prev _ := none
  list _ := none
  priority _ := 0

/-! ## Assignments to one field -/

def setHead (m : ListMem L N) (l : L) (v : Option N) : ListMem L N :=
  { m with head := Function.update m.head l v }

def setTail (m : ListMem L N) (l : L) (v : Option N) : ListMem L N :=
  { m with tail := Function.update m.tail l v }

def setNext (m : ListMem L N) (n : N) (v : Option N) : ListMem L N :=
  { m with next := Function.update m.next n v }

def setPrev (m : ListMem L N) (n : N) (v : Option N) : ListMem L N :=
  { m with prev := Function.update m.prev n v }

def setList (m : ListMem L N) (n : N) (v : Option L) : ListMem L N :=
  { m with list := Function.update m.list n v }

def setPriority (m : ListMem L N) (n : N) (v : Int) : ListMem L N :=
  { m with priority := Function.update m.priority n v }

/-! ## The operations of `list.c` -/

/-- `list_push_head`. -/
def listPushHead (m : ListMem L N) (list : L) (node : N) : ListMem L N :=
  let m := m.setNext node (m.head list)
  let m := m.setPrev node none
  let m := m.setPriority node 0
  let m := match m.head list with
    | some h => m.setPrev h (some node)
    | none => m
  let m := m.setHead list (some node)
  let m := match m.tail list with
    | some _ => m
    | none => m.setTail list (some node)
  m.setList node (some list)

/-- `list_push_tail`. -/
def listPushTail (m : ListMem L N) (list : L) (node : N) : ListMem L N :=
  let m := m.setPrev node (m.tail list)
  let m := m.setNext node none
  let m := m.setPriority node 0
  let m := match m.tail list with
    | some t => m.setNext t (some node)
    | none => m
  let m := m.setTail list (some node)
  let m := match m.head list with
    | some _ => m
    | none => m.setHead list (some node)
  m.setList node (some list)

/-- The body of the `if` in `list_push_priority`: link `node` before `n`. -/
def linkBefore (m : ListMem L N) (list : L) (node n : N) (pri : Int) : ListMem L N :=
  let m := m.setNext node (some n)
  let m := m.setPrev node (m.prev n)
  let m := m.setPriority node pri
  let m := match m.prev n with
    | some p => m.setNext p (some node)
    | none => m.setHead list (some node)
  let m := m.setPrev n (some node)
  m.setList node (some list)

/-- The `for` loop of `list_push_priority` from node `n` with counter `i`,
and the `list_push_tail` it falls through to. The counter bounds the loop on
every memory: the 5002nd node is always accepted. -/
def pushPriorityLoop (m : ListMem L N) (list : L) (node : N) (pri : Int) :
    Option N → Nat → ListMem L N
  | none, _ => m.listPushTail list node
  | some n, i =>
    if pri > m.priority n ∨ i > 5000 then m.linkBefore list node n pri
    else pushPriorityLoop m list node pri (m.next n) (i + 1)
  termination_by _ i => 5001 - i
  decreasing_by omega

/-- `list_push_priority`. -/
def listPushPriority (m : ListMem L N) (list : L) (node : N) (pri : Int) : ListMem L N :=
  match m.head list with
  | none => m.listPushHead list node
  | some h => m.pushPriorityLoop list node pri (some h) 0

/-- `list_pop_head`: the new memory and the node returned. -/
def listPopHead (m : ListMem L N) (list : L) : ListMem L N × Option N :=
  match m.head list with
  | none => (m, none)
  | some result =>
    let m := m.setHead list (m.next result)
    let m := match m.head list with
      | some h => m.setPrev h none
      | none => m
    let m := match m.head list with
      | some _ => m
      | none => m.setTail list none
    let m := m.setPrev result none
    let m := m.setNext result none
    let m := m.setList result none
    (m, some result)

/-- `list_pop_tail`: the new memory and the node returned. -/
def listPopTail (m : ListMem L N) (list : L) : ListMem L N × Option N :=
  match m.tail list with
  | none => (m, none)
  | some result =>
    let m := m.setTail list (m.prev result)
    let m := match m.tail list with
      | some t => m.setNext t none
      | none => m
    let m := match m.tail list with
      | some _ => m
      | none => m.setHead list none
    let m := m.setPrev result none
    let m := m.setNext result none
    let m := m.setList result none
    (m, some result)

/-- `list_remove`. The middle case dereferences `node->next` and
`node->prev` without a test: a null pointer there is the result `none`. -/
def listRemove (m : ListMem L N) (node : N) : Option (ListMem L N) :=
  match m.list node with
  | none => some m
  | some list =>
    if m.head list = some node then some (m.listPopHead list).1
    else if m.tail list = some node then some (m.listPopTail list).1
    else do
      let nx ← m.next node
      let m := m.setPrev nx (m.prev node)
      let pv ← m.prev node
      let m := m.setNext pv (m.next node)
      let m := m.setPrev node none
      let m := m.setNext node none
      some (m.setList node none)

end ListMem

/-! ## Calls -/

/-- One call of an operation of `list.c`. -/
inductive ListOp (L N : Type) where
  | pushHead (list : L) (node : N)
  | pushTail (list : L) (node : N)
  | pushPriority (list : L) (node : N) (pri : Int)
  | popHead (list : L)
  | popTail (list : L)
  | remove (node : N)
  deriving DecidableEq

namespace ListOp

variable {L N : Type} [DecidableEq L] [DecidableEq N]

/-- The pushes are called on nodes whose `list` field is 0 only. -/
def Enabled (m : ListMem L N) : ListOp L N → Prop
  | .pushHead _ node | .pushTail _ node | .pushPriority _ node _ => m.list node = none
  | .popHead _ | .popTail _ | .remove _ => True

/-- The memory after the call and the node it returns (`none` for the
operations that return nothing); `none` is a null dereference. -/
def exec (m : ListMem L N) : ListOp L N → Option (ListMem L N × Option N)
  | .pushHead list node => some (m.listPushHead list node, none)
  | .pushTail list node => some (m.listPushTail list node, none)
  | .pushPriority list node pri => some (m.listPushPriority list node pri, none)
  | .popHead list => some (m.listPopHead list)
  | .popTail list => some (m.listPopTail list)
  | .remove node => (m.listRemove node).map fun m => (m, none)

end ListOp

end Hexos
