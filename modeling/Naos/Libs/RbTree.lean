/-
The intrusive red-black tree of src/kernel/src/libs/rbtree.{h,c}.

A node is a `struct rb_node` embedded in a larger structure; the heap maps node addresses to their links and to the
payload of the enclosing structure, which only an augment callback reads and writes. Pointers are node addresses,
NULL is `none`. The word `rb_parent_color` packs the parent pointer with the colour in bit 0 (KRB_RED = 0,
KRB_BLACK = 1); the model keeps the two as separate fields, and `rb_set_parent` / `rb_set_color` each write one of
them. A dereference of NULL makes a function return `none`; so does a loop that runs out of `fuel`, the bound the
model puts on the iterations of the source's while loops.

Functions: `rbRotateLeft`, `rbRotateRight` (__rb_rotate_left/right), `rbInsertColorCore` (__rb_insert_color),
`rbInsertColor`, `rbInsertAugmented`, `rbEraseColorCore` (__rb_erase_color), `rbEraseCore` (__rb_erase),
`rbErase`, `rbEraseAugmented`, `rbAugmentPath`, `rbFirst`, `rbNext`.
-/
import Naos.Lib.RedBlack

namespace Naos.RbTree

open RedBlack

/-- struct rb_node -/
structure RbNode where
  parent : Option Nat
  color : Color
  right : Option Nat
  left : Option Nat
  deriving DecidableEq, Repr

/-- the nodes, the payloads of their enclosing structures, and rb_root_t -/
structure RbHeap (β : Type) where
  nodes : Nat → RbNode
  data : Nat → β
  root : Option Nat

/-- rb_augment_f: a callback that recomputes the payload of the node it is given -/
abbrev RbAugmentF (β : Type) := RbHeap β → Nat → β

variable {β : Type}

namespace RbHeap

def modify (h : RbHeap β) (i : Nat) (g : RbNode → RbNode) : RbHeap β :=
  { h with nodes := Function.update h.nodes i (g (h.nodes i)) }

/-- rb_set_parent -/
def setParent (h : RbHeap β) (i : Nat) (p : Option Nat) : RbHeap β :=
  h.modify i fun n => { n with parent := p }

/-- rb_set_color; rb_set_red and rb_set_black are its two instances -/
def setColor (h : RbHeap β) (i : Nat) (c : Color) : RbHeap β :=
  h.modify i fun n => { n with color := c }

/-- node->rb_right = v -/
def setRight (h : RbHeap β) (i : Nat) (v : Option Nat) : RbHeap β :=
  h.modify i fun n => { n with right := v }

/-- node->rb_left = v -/
def setLeft (h : RbHeap β) (i : Nat) (v : Option Nat) : RbHeap β :=
  h.modify i fun n => { n with left := v }

/-- root->rb_node = v -/
def setRoot (h : RbHeap β) (v : Option Nat) : RbHeap β :=
  { h with root := v }

/-- augment(i) -/
def augment (h : RbHeap β) (f : RbAugmentF β) (i : Nat) : RbHeap β :=
  { h with data := Function.update h.data i (f h i) }

/-- if (augment) augment(i) -/
def augmentIf (h : RbHeap β) (aug : Option (RbAugmentF β)) (i : Nat) : RbHeap β :=
  match aug with
  | none => h
  | some f => h.augment f i

/-- n && rb_is_red(n); its negation is the test (!n || rb_is_black(n)) -/
def isRed (h : RbHeap β) : Option Nat → Bool
  | none => false
  | some n =>
    match (h.nodes n).color with
    | .red => true
    | .black => false

end RbHeap

open RbHeap

/-- rb_augment_path: augment `node` and then each of its ancestors -/
def augmentPathLoop (f : RbAugmentF β) : Nat → RbHeap β → Option Nat → Option (RbHeap β)
  | _, h, none => some h
  | 0, _, some _ => none
  | fuel + 1, h, some n =>
    let h := h.augment f n
    augmentPathLoop f fuel h (h.nodes n).parent

def rbAugmentPath (aug : Option (RbAugmentF β)) (fuel : Nat) (h : RbHeap β) (node : Option Nat) :
    Option (RbHeap β) :=
  match aug with
  | none => some h
  | some f => augmentPathLoop f fuel h node

/-- the parent update that rotations and erasure share:
`if (parent) { if (parent->rb_left == old) parent->rb_left = new; else parent->rb_right = new; }
else root->rb_node = new;` -/
def replaceChild (h : RbHeap β) (parent : Option Nat) (old : Nat) (new : Option Nat) : RbHeap β :=
  match parent with
  | some p => if (h.nodes p).left = some old then h.setLeft p new else h.setRight p new
  | none => h.setRoot new

/-- the same update as __rb_rotate_right writes it, testing the right child first -/
def replaceChildRight (h : RbHeap β) (parent : Option Nat) (old : Nat) (new : Option Nat) : RbHeap β :=
  match parent with
  | some p => if some old = (h.nodes p).right then h.setRight p new else h.setLeft p new
  | none => h.setRoot new

/-- the pointer updates of __rb_rotate_left, whose `right` is node->rb_right -/
def rotateLeftLinks (h : RbHeap β) (node right : Nat) : RbHeap β :=
  let parent := (h.nodes node).parent
  -- if ((node->rb_right = right->rb_left)) rb_set_parent(right->rb_left, node);
  let h := match (h.nodes right).left with
    | some rl => (h.setRight node (some rl)).setParent rl (some node)
    | none => h.setRight node none
  let h := (h.setLeft right (some node)).setParent right parent
  (replaceChild h parent node (some right)).setParent node (some right)

/-- __rb_rotate_left -/
def rbRotateLeft (aug : Option (RbAugmentF β)) (h : RbHeap β) (node : Nat) : Option (RbHeap β) :=
  match (h.nodes node).right with
  | none => none
  | some right => some (((rotateLeftLinks h node right).augmentIf aug node).augmentIf aug right)

/-- the pointer updates of __rb_rotate_right, whose `left` is node->rb_left -/
def rotateRightLinks (h : RbHeap β) (node left : Nat) : RbHeap β :=
  let parent := (h.nodes node).parent
  let h := match (h.nodes left).right with
    | some lr => (h.setLeft node (some lr)).setParent lr (some node)
    | none => h.setLeft node none
  let h := (h.setRight left (some node)).setParent left parent
  (replaceChildRight h parent node (some left)).setParent node (some left)

/-- __rb_rotate_right -/
def rbRotateRight (aug : Option (RbAugmentF β)) (h : RbHeap β) (node : Nat) : Option (RbHeap β) :=
  match (h.nodes node).left with
  | none => none
  | some left => some (((rotateRightLinks h node left).augmentIf aug node).augmentIf aug left)

/-! ## Insertion -/

/-- uncle && rb_is_red(uncle): the uncle, if it is red -/
def redNode (h : RbHeap β) : Option Nat → Option Nat
  | none => none
  | some u =>
    match (h.nodes u).color with
    | .red => some u
    | .black => none

/-- the rotations of __rb_insert_color when the parent is the left child of the grandparent and the uncle is black or
NULL; gives the heap and the node the loop goes on with -/
def insertFixupLeft (aug : Option (RbAugmentF β)) (h : RbHeap β) (node parent gparent : Nat) :
    Option (RbHeap β × Nat) :=
  if (h.nodes parent).right = some node then
    -- __rb_rotate_left(parent), after which parent and node swap roles
    (rbRotateLeft aug h parent).bind fun h =>
      (rbRotateRight aug ((h.setColor node .black).setColor gparent .red) gparent).map fun h => (h, parent)
  else
    (rbRotateRight aug ((h.setColor parent .black).setColor gparent .red) gparent).map fun h => (h, node)

/-- the mirror case: the parent is the right child of the grandparent -/
def insertFixupRight (aug : Option (RbAugmentF β)) (h : RbHeap β) (node parent gparent : Nat) :
    Option (RbHeap β × Nat) :=
  if (h.nodes parent).left = some node then
    (rbRotateRight aug h parent).bind fun h =>
      (rbRotateLeft aug ((h.setColor node .black).setColor gparent .red) gparent).map fun h => (h, parent)
  else
    (rbRotateLeft aug ((h.setColor parent .black).setColor gparent .red) gparent).map fun h => (h, node)

/-- the loop `while ((parent = rb_parent(node)) && rb_is_red(parent))` of __rb_insert_color -/
def rbInsertColorLoop (aug : Option (RbAugmentF β)) : Nat → RbHeap β → Nat → Option (RbHeap β)
  | 0, _, _ => none
  | fuel + 1, h, node =>
    match (h.nodes node).parent with
    | none => some h
    | some parent =>
      match (h.nodes parent).color with
      | .black => some h
      | .red =>
        match (h.nodes parent).parent with
        | none => none
        | some gparent =>
          if some parent = (h.nodes gparent).left then
            match redNode h (h.nodes gparent).right with
            | some uncle =>
              rbInsertColorLoop aug fuel (((h.setColor uncle .black).setColor parent .black).setColor gparent .red)
                gparent
            | none =>
              (insertFixupLeft aug h node parent gparent).bind fun (h, node) => rbInsertColorLoop aug fuel h node
          else
            match redNode h (h.nodes gparent).left with
            | some uncle =>
              rbInsertColorLoop aug fuel (((h.setColor uncle .black).setColor parent .black).setColor gparent .red)
                gparent
            | none =>
              (insertFixupRight aug h node parent gparent).bind fun (h, node) => rbInsertColorLoop aug fuel h node

theorem rbInsertColorLoop_succ (aug : Option (RbAugmentF β)) (fuel : Nat) (h : RbHeap β) (node : Nat) :
    rbInsertColorLoop aug (fuel + 1) h node =
      match (h.nodes node).parent with
      | none => some h
      | some parent =>
        match (h.nodes parent).color with
        | .black => some h
        | .red =>
          match (h.nodes parent).parent with
          | none => none
          | some gparent =>
            if some parent = (h.nodes gparent).left then
              match redNode h (h.nodes gparent).right with
              | some uncle =>
                rbInsertColorLoop aug fuel (((h.setColor uncle .black).setColor parent .black).setColor gparent .red)
                  gparent
              | none =>
                (insertFixupLeft aug h node parent gparent).bind fun (h, node) => rbInsertColorLoop aug fuel h node
            else
              match redNode h (h.nodes gparent).left with
              | some uncle =>
                rbInsertColorLoop aug fuel (((h.setColor uncle .black).setColor parent .black).setColor gparent .red)
                  gparent
              | none =>
                (insertFixupRight aug h node parent gparent).bind fun (h, node) => rbInsertColorLoop aug fuel h node :=
  rfl

/-- __rb_insert_color: the loop, then rb_set_black(root->rb_node) -/
def rbInsertColorCore (aug : Option (RbAugmentF β)) (fuel : Nat) (h : RbHeap β) (node : Nat) :
    Option (RbHeap β) :=
  (rbInsertColorLoop aug fuel h node).bind fun h =>
    match h.root with
    | some r => some (h.setColor r .black)
    | none => none

/-- rb_insert_color -/
def rbInsertColor (fuel : Nat) (h : RbHeap β) (node : Nat) : Option (RbHeap β) :=
  rbInsertColorCore none fuel h node

/-- rb_insert_augmented -/
def rbInsertAugmented (aug : Option (RbAugmentF β)) (fuel : Nat) (h : RbHeap β) (node : Nat) :
    Option (RbHeap β) :=
  (rbAugmentPath aug fuel h (some node)).bind fun h => rbInsertColorCore aug fuel h node

/-! ## Erasure -/

/-- how one pass of the loop of __rb_erase_color ends -/
inductive EraseStep (β : Type) where
  /-- case 2: `node = parent; parent = rb_parent(node);` and the loop goes on -/
  | next (h : RbHeap β) (node parent : Option Nat)
  /-- case 4: `node = root->rb_node; break;` -/
  | done (h : RbHeap β) (node : Option Nat)

/-- case 4 of __rb_erase_color, node the left child of parent and `other` its sibling with a red right child:
the sibling takes the parent's colour and place -/
def eraseColorLeftRotate (aug : Option (RbAugmentF β)) (h : RbHeap β) (parent other : Nat) :
    Option (EraseStep β) :=
  let h := (h.setColor other (h.nodes parent).color).setColor parent .black
  match (h.nodes other).right with
  | none => none
  | some oright => (rbRotateLeft aug (h.setColor oright .black) parent).map fun h => .done h h.root

/-- cases 2 to 4 of __rb_erase_color, node the left child of parent and `other` its black sibling -/
def eraseColorLeftSibling (aug : Option (RbAugmentF β)) (h : RbHeap β) (parent other : Nat) :
    Option (EraseStep β) :=
  if !h.isRed (h.nodes other).left && !h.isRed (h.nodes other).right then
    -- case 2
    let h := h.setColor other .red
    some (.next h (some parent) (h.nodes parent).parent)
  else if !h.isRed (h.nodes other).right then
    -- case 3: the sibling's red left child is rotated above it
    match (h.nodes other).left with
    | none => none
    | some oleft =>
      (rbRotateRight aug ((h.setColor oleft .black).setColor other .red) other).bind fun h =>
        (h.nodes parent).right.bind fun other => eraseColorLeftRotate aug h parent other
  else eraseColorLeftRotate aug h parent other

/-- the body of the loop of __rb_erase_color when node is the left child of parent -/
def eraseColorLeft (aug : Option (RbAugmentF β)) (h : RbHeap β) (parent : Nat) : Option (EraseStep β) :=
  match (h.nodes parent).right with
  | none => none
  | some other =>
    match (h.nodes other).color with
    | .red =>
      -- case 1: a red sibling is rotated above the parent
      (rbRotateLeft aug ((h.setColor other .black).setColor parent .red) parent).bind fun h =>
        (h.nodes parent).right.bind fun other => eraseColorLeftSibling aug h parent other
    | .black => eraseColorLeftSibling aug h parent other

/-- the mirror of `eraseColorLeftRotate`: node the right child of parent -/
def eraseColorRightRotate (aug : Option (RbAugmentF β)) (h : RbHeap β) (parent other : Nat) :
    Option (EraseStep β) :=
  let h := (h.setColor other (h.nodes parent).color).setColor parent .black
  match (h.nodes other).left with
  | none => none
  | some oleft => (rbRotateRight aug (h.setColor oleft .black) parent).map fun h => .done h h.root

/-- the mirror of `eraseColorLeftSibling` -/
def eraseColorRightSibling (aug : Option (RbAugmentF β)) (h : RbHeap β) (parent other : Nat) :
    Option (EraseStep β) :=
  if !h.isRed (h.nodes other).left && !h.isRed (h.nodes other).right then
    let h := h.setColor other .red
    some (.next h (some parent) (h.nodes parent).parent)
  else if !h.isRed (h.nodes other).left then
    match (h.nodes other).right with
    | none => none
    | some oright =>
      (rbRotateLeft aug ((h.setColor oright .black).setColor other .red) other).bind fun h =>
        (h.nodes parent).left.bind fun other => eraseColorRightRotate aug h parent other
  else eraseColorRightRotate aug h parent other

/-- the body of the loop of __rb_erase_color when node is the right child of parent -/
def eraseColorRight (aug : Option (RbAugmentF β)) (h : RbHeap β) (parent : Nat) : Option (EraseStep β) :=
  match (h.nodes parent).left with
  | none => none
  | some other =>
    match (h.nodes other).color with
    | .red =>
      (rbRotateRight aug ((h.setColor other .black).setColor parent .red) parent).bind fun h =>
        (h.nodes parent).left.bind fun other => eraseColorRightSibling aug h parent other
    | .black => eraseColorRightSibling aug h parent other

/-- the loop `while ((!node || rb_is_black(node)) && node != root->rb_node)` of __rb_erase_color -/
def rbEraseColorLoop (aug : Option (RbAugmentF β)) :
    Nat → RbHeap β → Option Nat → Option Nat → Option (RbHeap β × Option Nat)
  | 0, _, _, _ => none
  | fuel + 1, h, node, parent =>
    if !h.isRed node && node != h.root then
      match parent with
      | none => none
      | some parent =>
        let step := if (h.nodes parent).left = node then eraseColorLeft aug h parent else eraseColorRight aug h parent
        match step with
        | none => none
        | some (.done h node) => some (h, node)
        | some (.next h node parent) => rbEraseColorLoop aug fuel h node parent
    else some (h, node)

/-- __rb_erase_color: the loop, then `if (node) rb_set_black(node);` -/
def rbEraseColorCore (aug : Option (RbAugmentF β)) (fuel : Nat) (h : RbHeap β) (node parent : Option Nat) :
    Option (RbHeap β) :=
  (rbEraseColorLoop aug fuel h node parent).map fun (h, node) =>
    match node with
    | some n => h.setColor n .black
    | none => h

/-- the leftmost node below `n`: `while ((left = node->rb_left) != NULL) node = left;` -/
def leftmost (h : RbHeap β) : Nat → Nat → Option Nat
  | 0, _ => none
  | fuel + 1, n =>
    match (h.nodes n).left with
    | none => some n
    | some l => leftmost h fuel l

/-- the code of __rb_erase after its label color -/
def eraseFinish (aug : Option (RbAugmentF β)) (fuel : Nat) (h : RbHeap β) (augmentFrom : Option Nat)
    (color : Color) (child parent : Option Nat) : Option (RbHeap β) :=
  (rbAugmentPath aug fuel h augmentFrom).bind fun h =>
    match color with
    | .black => rbEraseColorCore aug fuel h child parent
    | .red => some h

/-- __rb_erase when node has at most one child, `child` -/
def eraseOneChild (aug : Option (RbAugmentF β)) (fuel : Nat) (h : RbHeap β) (node : Nat) (child : Option Nat) :
    Option (RbHeap β) :=
  let parent := (h.nodes node).parent
  let color := (h.nodes node).color
  let h := match child with
    | some c => h.setParent c parent
    | none => h
  eraseFinish aug fuel (replaceChild h parent node child) parent color child parent

/-- `node->rb_parent_color = old->rb_parent_color; node->rb_left = old->rb_left; rb_set_parent(old->rb_left, node);` -/
def takeOver (h : RbHeap β) (node old : Nat) : Option (RbHeap β) :=
  let h' := (h.modify node fun n => { n with parent := (h.nodes old).parent, color := (h.nodes old).color }).setLeft
    node (h.nodes old).left
  match (h'.nodes old).left with
  | none => none
  | some oleft => some (h'.setParent oleft (some node))

/-- __rb_erase when `old` has two children: its successor `node` takes its place -/
def eraseTwoChildren (aug : Option (RbAugmentF β)) (fuel : Nat) (h : RbHeap β) (old : Nat) : Option (RbHeap β) :=
  match (h.nodes old).right with
  | none => none
  | some r =>
    match leftmost h fuel r with
    | none => none
    | some node =>
      let h := replaceChild h (h.nodes old).parent old (some node)
      let child := (h.nodes node).right
      let parent := (h.nodes node).parent
      let color := (h.nodes node).color
      if parent = some old then
        (takeOver h node old).bind fun h => eraseFinish aug fuel h (some node) color child (some node)
      else
        match parent with
        | none => none
        | some parent =>
          let h := match child with
            | some c => h.setParent c (some parent)
            | none => h
          let h := (h.setLeft parent child).setRight node (h.nodes old).right
          match (h.nodes old).right with
          | none => none
          | some oright =>
            (takeOver (h.setParent oright (some node)) node old).bind fun h =>
              eraseFinish aug fuel h (some parent) color child (some parent)

/-- __rb_erase -/
def rbEraseCore (aug : Option (RbAugmentF β)) (fuel : Nat) (h : RbHeap β) (node : Nat) : Option (RbHeap β) :=
  match (h.nodes node).left, (h.nodes node).right with
  | none, right => eraseOneChild aug fuel h node right
  | some left, none => eraseOneChild aug fuel h node (some left)
  | some _, some _ => eraseTwoChildren aug fuel h node

/-- rb_erase -/
def rbErase (fuel : Nat) (h : RbHeap β) (node : Nat) : Option (RbHeap β) :=
  rbEraseCore none fuel h node

/-- rb_erase_augmented -/
def rbEraseAugmented (aug : Option (RbAugmentF β)) (fuel : Nat) (h : RbHeap β) (node : Nat) : Option (RbHeap β) :=
  rbEraseCore aug fuel h node

/-! ## Traversal -/

/-- rb_first; the inner `none` is the NULL it returns for an empty tree -/
def rbFirst (fuel : Nat) (h : RbHeap β) : Option (Option Nat) :=
  match h.root with
  | none => some none
  | some n => (leftmost h fuel n).map some

/-- the loop `while ((parent = rb_parent(node)) && node == parent->rb_right) node = parent;` of rb_next -/
def climbRight (h : RbHeap β) : Nat → Nat → Option (Option Nat)
  | 0, _ => none
  | fuel + 1, node =>
    match (h.nodes node).parent with
    | none => some none
    | some parent => if some node = (h.nodes parent).right then climbRight h fuel parent else some (some parent)

/-- rb_next -/
def rbNext (fuel : Nat) (h : RbHeap β) (node : Nat) : Option (Option Nat) :=
  if (h.nodes node).parent = some node then some none
  else
    match (h.nodes node).right with
    | some r => (leftmost h fuel r).map some
    | none => climbRight h fuel node

end Naos.RbTree
