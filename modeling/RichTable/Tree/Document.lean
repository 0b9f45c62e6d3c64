import RichTable.Tree.Node

/-!
# Documents

A document is an arena of nodes that refer to each other by id. The root has id 0, and every new
node takes the next free id. Nodes are never removed: detaching a node only takes it out of its
parent's children, so an id stays valid for the whole life of a document.

Every node caches the number of symbols in its content. Attaching and detaching a node adjust the
cache along the chain of its new or former ancestors.

Operations that can fail are `Action`s. A failed action keeps what it has changed so far.
-/

namespace RichTable

/-- A hierarchical rich-text document. -/
structure Document (L : Type) where
  nodes : Array (Node L)
deriving Repr, DecidableEq

/-- A change of a document that may fail. The document is kept in either case. -/
abbrev Action (L : Type) := ExceptT EditError (StateM (Document L))

namespace Document

variable {L : Type}

/-- The id of the root. -/
def root : NodeId := 0

/-- The document that has a root and nothing else. -/
def empty : Document L := ⟨#[{ payload := .other }]⟩

instance : Inhabited (Document L) := ⟨empty⟩

/-- The number of nodes, attached or not. -/
def size (d : Document L) : Nat := d.nodes.size

/-! ## Looking at nodes -/

def node? (d : Document L) (id : NodeId) : Option (Node L) := d.nodes[id]?

def payload? (d : Document L) (id : NodeId) : Option (Payload L) := (d.node? id).map (·.payload)

def kind? (d : Document L) (id : NodeId) : Option Kind := (d.payload? id).map (·.kind)

/-- Whether `id` is a node of kind `k`. -/
def isKind (d : Document L) (id : NodeId) (k : Kind) : Bool := d.kind? id == some k

def parent? (d : Document L) (id : NodeId) : Option NodeId := (d.node? id).bind (·.parent)

/-- The parent of `id`, provided it is of kind `k`. -/
def parentOfKind? (d : Document L) (id : NodeId) (k : Kind) : Option NodeId :=
  (d.parent? id).filter (d.isKind · k)

/-- The children of a node; an unknown node has none. -/
def children (d : Document L) (id : NodeId) : List NodeId :=
  ((d.node? id).map (·.children)).getD []

/-- The place of `id` among the children of its parent. -/
def childIndex? (d : Document L) (id : NodeId) : Option Nat :=
  (d.parent? id).bind fun p => (d.children p).idxOf? id

/-- The text of a run. -/
def text? (d : Document L) (id : NodeId) : Option String :=
  match d.payload? id with
  | some (.inline text) => some text
  | _ => none

/-- The properties of a cell. -/
def cell? (d : Document L) (id : NodeId) : Option (CellProps L) :=
  match d.payload? id with
  | some (.cell props) => some props
  | _ => none

/-- The properties of a table. -/
def table? (d : Document L) (id : NodeId) : Option (TableProps L) :=
  match d.payload? id with
  | some (.table props) => some props
  | _ => none

/-- The number of symbols in the content of a node. -/
def contentLength (d : Document L) (id : NodeId) : Nat :=
  ((d.node? id).map (·.contentLength)).getD 0

/-- The number of symbols that a node takes up, its start and its end included. -/
def symbolLength (d : Document L) (id : NodeId) : Nat := d.contentLength id + 2

/-! ## Ancestors -/

/-- The first `fuel` nodes on the way up from `id`, itself first. -/
def chain (d : Document L) : (fuel : Nat) → NodeId → List NodeId
  | 0, _ => []
  | fuel + 1, id =>
    match d.node? id with
    | none => []
    | some node =>
      match node.parent with
      | none => [id]
      | some p => id :: d.chain fuel p

/-- A node and its ancestors, innermost first; nothing for an unknown node. No chain is longer than
the arena. -/
def ancestors (d : Document L) (id : NodeId) : List NodeId := d.chain d.size id

/-- The innermost node of kind `k` among `id` and its ancestors. -/
def enclosing? (d : Document L) (id : NodeId) (k : Kind) : Option NodeId :=
  (d.ancestors id).find? (d.isKind · k)

/-- Whether a node can be reached from the root. -/
def isAttached (d : Document L) (id : NodeId) : Bool := (d.ancestors id).getLast? == some root

/-! ## Changing nodes -/

/-- Replaces a node by its image under `f`; without effect on unknown nodes. -/
def modifyNode (d : Document L) (id : NodeId) (f : Node L → Node L) : Document L :=
  ⟨d.nodes.modify id f⟩

/-- Changes the properties of a cell; without effect on other nodes. -/
def modifyCell (d : Document L) (id : NodeId) (f : CellProps L → CellProps L) : Document L :=
  d.modifyNode id fun node =>
    match node.payload with
    | .cell props => { node with payload := .cell (f props) }
    | _ => node

/-- Changes the properties of a table; without effect on other nodes. -/
def modifyTable (d : Document L) (id : NodeId) (f : TableProps L → TableProps L) : Document L :=
  d.modifyNode id fun node =>
    match node.payload with
    | .table props => { node with payload := .table (f props) }
    | _ => node

/-- Adds a detached node, whose id is the former size of the document. -/
def push (d : Document L) (payload : Payload L) : Document L :=
  ⟨d.nodes.push { payload, contentLength := payload.ownLength }⟩

/-- Changes the cached length of `id` and of all its ancestors. -/
def resizeFrom (d : Document L) (id : NodeId) (f : Nat → Nat) : Document L :=
  (d.ancestors id).foldl
    (fun d a => d.modifyNode a fun node => { node with contentLength := f node.contentLength }) d

/-- Why `child` cannot be attached below `parent`, if it cannot. -/
def attachError? (d : Document L) (parent child : NodeId) : Option EditError :=
  match d.kind? parent, d.kind? child with
  | none, _ => some (.unknownNode parent)
  | some _, none => some (.unknownNode child)
  | some p, some c =>
    if !p.accepts c then some (.invalidChild p c)
    else if (d.parent? child).isSome || child == root then some (.alreadyAttached child)
    else if (d.ancestors parent).contains child then some (.invalidChild p c)
    else none

/-- Writes `child` into the children of `parent` at `index`, or behind the last one. -/
def attach (d : Document L) (parent : NodeId) (index : Nat) (child : NodeId) : Document L :=
  ((d.modifyNode parent fun node =>
      { node with children := node.children.insertIdx (min index node.children.length) child })
    |>.modifyNode child fun node => { node with parent := some parent })
    |>.resizeFrom parent (· + d.symbolLength child)

/-- Takes a node out of its parent's children; what stands below it stays. -/
def detach (d : Document L) (id : NodeId) : Document L :=
  match d.parent? id with
  | none => d
  | some parent =>
    ((d.modifyNode parent fun node => { node with children := node.children.filter (· != id) })
      |>.modifyNode id fun node => { node with parent := none })
      |>.resizeFrom parent (· - d.symbolLength id)

end Document

namespace Action

variable {L : Type}

/-- Adds a detached node and returns its id. -/
def create (payload : Payload L) : Action L NodeId := do
  let d ← get
  set (d.push payload)
  return d.size

/-- Attaches a detached node at `index` below `parent`. A refusal changes nothing. -/
def insertChild (parent : NodeId) (index : Nat) (child : NodeId) : Action L Unit := do
  let d ← get
  match d.attachError? parent child with
  | some e => throw e
  | none => set (d.attach parent index child)

/-- Attaches a detached node as the last child of `parent`. -/
def appendChild (parent child : NodeId) : Action L Unit := do
  insertChild parent ((← get).children parent).length child

/-- Takes a node out of its parent's children. -/
def detach (id : NodeId) : Action L Unit := modify (·.detach id)

/-- Appends a paragraph with the given text to `parent`. An empty text gives an empty block. -/
def appendParagraph (parent : NodeId) (text : String) : Action L NodeId := do
  let block ← create .block
  if text ≠ "" then
    let run ← create (.inline text)
    appendChild block run
  appendChild parent block
  return block

/-- The properties of a cell, or an error that names the node. -/
def requireCell (id : NodeId) : Action L (CellProps L) := do
  match (← get).cell? id with
  | some props => return props
  | none => throw (.unexpectedElement id .cell)

/-- Changes the properties of a cell, or fails with an error that names the node. -/
def updateCell (id : NodeId) (f : CellProps L → CellProps L) : Action L Unit := do
  let _ ← requireCell id
  modify (·.modifyCell id f)

/-- The properties of a table, or an error that names the node. -/
def requireTable (id : NodeId) : Action L (TableProps L) := do
  match (← get).table? id with
  | some props => return props
  | none => throw (.unexpectedElement id .table)

/-- The parent of a node, or an error that names the node if it is not of kind `k`. -/
def requireParent (id : NodeId) (k : Kind) : Action L NodeId := do
  match (← get).parentOfKind? id k with
  | some p => return p
  | none => throw (.unexpectedElement id k)

end Action

end RichTable
