import Mathlib.Logic.Function.Basic

/-!
# Configuration tree

`media/common/codec_mm/configs/configs.c`. The nodes are numbered, with the root as
number 0; `count` of them exist. The walk of `configs_put_node` up the parents ends
after at most that many steps or not at all, which is what a result `none` stands for.

Strings are their characters up to the NUL. What an item holds, and how its value is
printed, parsed and copied, is a parameter (`ValueOps`), as is the text of a listing:
neither touches a node.
-/
namespace AmlogicV901d.Source.Configs

def maxItemName : Nat := 128
def maxPrefixName : Nat := 128
def maxDepth : Nat := 8

def configForR : UInt32 := 1
def configForW : UInt32 := 2

structure Mconfig (V : Type) where
  itemName : List Char
  value : V

structure MconfigNode (V : Type) where
  nodePrefix : List Char
  name : List Char
  /-- `active > 0` -/
  active : Bool
  depth : Nat
  parentNode : Option Nat
  sonNodeNum : Int
  sonNodeList : List Nat
  configs : Option (List (Mconfig V))
  refCnt : Int32
  rwFlags : UInt32

structure Nodes (V : Type) where
  node : Nat → MconfigNode V
  count : Nat

def rootNode : Nat := 0

variable {V : Type}

def Nodes.modify (s : Nodes V) (n : Nat) (f : MconfigNode V → MconfigNode V) : Nodes V :=
  { s with node := Function.update s.node n (f (s.node n)) }

/-! ## References -/

def configsIncNodeRef (s : Nodes V) (n : Nat) : Nodes V := s.modify n fun x => { x with refCnt := x.refCnt + 1 }

def configsDecNodeRef (s : Nodes V) (n : Nat) : Nodes V := s.modify n fun x => { x with refCnt := x.refCnt - 1 }

/-- The loop of `configs_put_node`. -/
def putParents (root : Option Nat) : Nat → Option Nat → Nodes V → Option (Nodes V)
  | _, none, s => some s
  | 0, some _, _ => none
  | fuel + 1, some pnode, s =>
    if some pnode = root then some s
    else putParents root fuel (s.node pnode).parentNode (configsDecNodeRef s pnode)

def configsPutNode (s : Nodes V) (node : Option Nat) (delParentRef : Bool) (root : Option Nat) : Option (Nodes V) :=
  match node with
  | none => some s
  | some n =>
    let s := configsDecNodeRef s n
    if delParentRef then putParents root s.count (s.node n).parentNode s else some s

/-! ## Paths -/

def isBlank (c : Char) : Bool := c == ' ' || c == '\r' || c == '\n'

/-- The size of the first component, its name up to a blank, and whether it is the last one. -/
def configsParserFirstNode (rootStr : List Char) : Nat × List Char × Bool :=
  let isEndNode := !rootStr.contains '.'
  let nodeSize := (rootStr.takeWhile (· != if isEndNode then '=' else '.')).length
  let nodeSize := if nodeSize ≥ maxItemName - 1 then maxItemName - 1 else nodeSize
  (nodeSize, (rootStr.take nodeSize).takeWhile (!isBlank ·), isEndNode)

/-- The components that the loops over a path read one after the other: those before the last one,
and the last one unless the path ends with one that is empty. -/
def parsePath : Nat → List Char → List (List Char) × Option (List Char)
  | 0, _ => ([], none)
  | fuel + 1, path =>
    let (i, subNodeName, isEnd) := configsParserFirstNode path
    if i = 0 ∨ subNodeName = [] then ([], none)
    else if isEnd then ([], some subNodeName)
    else
      let (names, last) := parsePath fuel (path.drop (i + 1))
      (subNodeName :: names, last)

def configsParserStrValstr (rootStr : List Char) : Option (List Char) :=
  if rootStr.contains '=' then some ((rootStr.dropWhile (· != '=')).drop 1) else none

/-! ## Nodes -/

def configsGetNodeWithName (s : Nodes V) (rootnode : Nat) (nodeName : List Char) : Option Nat × Nodes V :=
  match (s.node rootnode).sonNodeList.find? fun snode => (s.node snode).name = nodeName with
  | none => (none, s)
  | some need =>
    if (s.node need).active then
      let s := configsIncNodeRef s need
      if (s.node need).refCnt < 0 then (none, s) else (some need, s)
    else (none, s)

def configsInitNewNode (node : MconfigNode V) (name : List Char) (rwFlags : UInt32) : MconfigNode V :=
  { node with
    configs := none, sonNodeNum := 0, name, rwFlags, depth := 0, active := true, nodePrefix := [], refCnt := 0, sonNodeList := [] }

/-- The prefix of a new son; `strcat` leaves what stands in the buffer where the parent has none. -/
def sonPrefix (parent newNode : MconfigNode V) : List Char :=
  if parent.depth + 1 ≥ 2 then
    (if parent.nodePrefix ≠ [] then parent.nodePrefix ++ ['.'] else newNode.nodePrefix) ++ parent.name
  else newNode.nodePrefix

/-- The end of `configs_register_node`. -/
def Nodes.attach (s : Nodes V) (parent newNode : Nat) : Nodes V :=
  (s.modify newNode fun x => { x with
    depth := (s.node parent).depth + 1
    nodePrefix := sonPrefix (s.node parent) x
    parentNode := some parent
    rwFlags := (s.node parent).rwFlags &&& x.rwFlags
    active := true }).modify parent fun x => { x with
    sonNodeList := x.sonNodeList ++ [newNode]
    sonNodeNum := x.sonNodeNum + 1 }

def configsRegisterNode (s : Nodes V) (parent : Option Nat) (newNode : Nat) : Int32 × Nodes V :=
  let parent := parent.getD rootNode
  if newNode = parent then (0, s)
  else if (s.node parent).depth ≥ maxDepth then (-1, s)
  else if (s.node parent).nodePrefix.length + (s.node parent).name.length ≥ maxPrefixName - 2 then (-2, s)
  else
    match configsGetNodeWithName s parent (s.node newNode).name with
    | (some _, s) => (-3, s)
    | (none, s) => (0, s.attach parent newNode)

/-- The loops over the components of a path before the last one: the node they lead to,
or the one in which a name was not found. -/
def walkNames (s : Nodes V) (node : Nat) : List (List Char) → Except Nat Nat × Nodes V
  | [] => (.ok node, s)
  | name :: names =>
    match configsGetNodeWithName s node name with
    | (none, s) => (.error node, s)
    | (some snode, s) => walkNames s snode names

def configsGetNodePathEndNode (s : Nodes V) (root : Option Nat) (path : Option (List Char)) : Option Nat × Nodes V :=
  match path with
  | none => (none, s)
  | some path =>
    let (names, last) := parsePath path.length path
    let startNode := root.getD rootNode
    match walkNames s startNode names with
    | (.error _, s) => (none, s)
    | (.ok node, s) =>
      match last with
      | none => (none, s)
      | some name =>
        -- only where no top node was given
        if root = none ∧ node = startNode ∧ (s.node node).name = name then (some node, s)
        else configsGetNodeWithName s node name

def configsRegisterPathNode (s : Nodes V) (path : Option (List Char)) (newNode : Nat) : Option (Int32 × Nodes V) :=
  if path.getD [] = [] then some (configsRegisterNode s none newNode)
  else
    match configsGetNodePathEndNode s none path with
    | (none, s) => some (-1, s)
    | (some parent, s) => do
      let (ret, s) := configsRegisterNode s (some parent) newNode
      let s ← configsPutNode s (some parent) true none
      pure (ret, s)

def configsRegisterConfigs (s : Nodes V) (node : Nat) (configs : List (Mconfig V)) : Int32 × Nodes V :=
  if (s.node node).configs.isSome then (-2, s) else (0, s.modify node fun x => { x with configs := some configs })

def configsRegisterPathConfigs (s : Nodes V) (path : Option (List Char)) (configs : List (Mconfig V)) :
    Option (Int32 × Nodes V) :=
  if path.getD [] = [] then some (-1, s)
  else
    match configsGetNodePathEndNode s none path with
    | (none, s) => some (-1, s)
    | (some parent, s) => do
      let (ret, s) := configsRegisterConfigs s parent configs
      let s ← configsPutNode s (some parent) true none
      pure (ret, s)

def configsDelEndnode (s : Nodes V) (parent : Option Nat) (node : Nat) : Int32 × Nodes V :=
  let s := s.modify node fun x => { x with active := false }
  if (s.node node).refCnt ≠ 0 then (-1, s)
  else
    let s := s.modify node fun x => { x with configs := none }
    if (s.node node).sonNodeNum > 0 then (-2, s)
    else
      match parent with
      | none => (0, s)
      | some parent => (0, s.modify parent fun x => { x with
          sonNodeList := x.sonNodeList.erase node
          sonNodeNum := x.sonNodeNum - 1 })

/-! ## Items -/

/-- `configs_str2config`, `configs_config2str`, `configs_setget_config_value` in its two directions
and `configs_list_nodes`. -/
structure ValueOps (V : Type) where
  configsStr2config : V → List Char → V × Int32
  configsConfig2str : V → Int → Int32
  configsSetConfigValue : V → UInt64 → Nat → V × Int32
  configsGetConfigValue : V → Nat → Int32
  configsListNodes : Nodes V → Nat → Int → Int → Int32

/-- The number of the item in its node. -/
def configsGetNodeConfig (s : Nodes V) (node : Nat) (name : List Char) : Option Nat × Nodes V :=
  match ((s.node node).configs.getD []).findIdx? fun val => val.itemName = name with
  | none => (none, s)
  | some i => (some i, configsIncNodeRef s node)

def configsGetNodePathConfig (s : Nodes V) (root : Option Nat) (path : Option (List Char)) (set : Bool) :
    Option (Int32 × Option (Nat × Nat) × Nodes V) :=
  match path with
  | none => some (-5, none, s)
  | some path =>
    let (names, last) := parsePath path.length path
    let root := root.getD rootNode
    let out (node : Nat) (err : Int32) (s : Nodes V) : Option (Int32 × Option (Nat × Nat) × Nodes V) := do
      let s ← configsPutNode s (some node) true (some root)
      pure (err, none, s)
    match walkNames s root names with
    | (.error parent, s) => if parent ≠ root then out parent (-1) s else some (-2, none, s)
    | (.ok node, s) =>
      match last with
      | none => some (-1, none, s)
      | some item =>
        if set ∧ (s.node node).rwFlags &&& configForW = 0 then out node (-2) s
        else if ¬ set ∧ (s.node node).rwFlags &&& configForR = 0 then out node (-1) s
        else
          match configsGetNodeConfig s node item with
          | (none, s) => out node (-1) s
          | (some i, s) => some (0, some (node, i), s)

/-- The item changed by `act`, and what `act` returns. -/
def Nodes.actOnItem (s : Nodes V) (node i : Nat) (act : V → V × Int32) : Int32 × Nodes V :=
  match ((s.node node).configs.getD [])[i]? with
  | none => (0, s)
  | some config =>
    let (value, ret) := act config.value
    (ret, s.modify node fun x => { x with configs := x.configs.map fun l => l.set i { config with value } })

/-- What the calls by path have in common: the item is looked up, `act` done on it, and the references dropped. -/
def onPathConfig (s : Nodes V) (topnode : Option Nat) (path : Option (List Char)) (set : Bool) (act : V → V × Int32) :
    Option (Int32 × Nodes V) := do
  let (ret, found, s) ← configsGetNodePathConfig s topnode path set
  match found with
  | none => pure (ret, s)
  | some (node, i) =>
    let (ret, s) := s.actOnItem node i act
    let s ← configsPutNode s (some node) false topnode
    let s ← configsPutNode s (some node) true topnode
    pure (ret, s)

variable (ops : ValueOps V)

def configsSetNodePathValue (s : Nodes V) (topnode : Option Nat) (path : Option (List Char)) (val : UInt64) (size : Nat) :
    Option (Int32 × Nodes V) :=
  onPathConfig s topnode path true fun v => ops.configsSetConfigValue v val size

def configsGetNodePathValue (s : Nodes V) (topnode : Option Nat) (path : Option (List Char)) (size : Nat) :
    Option (Int32 × Nodes V) :=
  onPathConfig s topnode path false fun v => (v, ops.configsGetConfigValue v size)

def configsSetNodePathStr (s : Nodes V) (topnode : Option Nat) (path val : Option (List Char)) : Option (Int32 × Nodes V) :=
  if path.getD [] = [] ∨ val.getD [] = [] then some (-1, s)
  else onPathConfig s topnode path true fun v =>
    let (v, ret) := ops.configsStr2config v (val.getD [])
    (v, if ret > 0 then 0 else if ret = 0 then -1 else ret)

def configsGetNodePathStr (s : Nodes V) (topnode : Option Nat) (path : Option (List Char)) (size : Int) :
    Option (Int32 × Nodes V) :=
  if path.getD [] = [] then some (-1, s)
  else onPathConfig s topnode path false fun v => (v, ops.configsConfig2str v size)

def configsSetNodePathValonpath (s : Nodes V) (topnode : Option Nat) (path : List Char) : Option (Int32 × Nodes V) :=
  configsSetNodePathStr ops s topnode (some path) (configsParserStrValstr path)

def configsSetPrefixPathStr (s : Nodes V) (pre path str : Option (List Char)) : Option (Int32 × Nodes V) :=
  if pre.getD [] = [] then configsSetNodePathStr ops s none path str
  else
    match configsGetNodePathEndNode s none pre with
    | (none, s) => some (-1, s)
    | (some topnode, s) => do
      let (ret, s) ← configsSetNodePathStr ops s (some topnode) path str
      let s ← configsPutNode s (some topnode) true none
      pure (ret, s)

def configsSetPrefixPathValonpath (s : Nodes V) (pre : Option (List Char)) (path : List Char) : Option (Int32 × Nodes V) :=
  configsSetPrefixPathStr ops s pre (some path) (configsParserStrValstr path)

def configsListPathNodes (s : Nodes V) (pre : Option (List Char)) (size mode : Int) : Option (Int32 × Nodes V) :=
  match configsGetNodePathEndNode s none pre with
  | (none, s) => some (0, s)
  | (some node, s) => do
    let ret := ops.configsListNodes s node size mode
    let s ← configsPutNode s (some node) true none
    pure (ret, s)

/-! ## Calls -/

inductive Call (V : Type) where
  | registerPathNode (path : Option (List Char)) (newNode : Nat)
  | registerPathConfigs (path : Option (List Char)) (configs : List (Mconfig V))
  | setNodePathValue (topnode : Option Nat) (path : Option (List Char)) (val : UInt64) (size : Nat)
  | getNodePathValue (topnode : Option Nat) (path : Option (List Char)) (size : Nat)
  | setNodePathStr (topnode : Option Nat) (path val : Option (List Char))
  | getNodePathStr (topnode : Option Nat) (path : Option (List Char)) (size : Int)
  | setNodePathValonpath (topnode : Option Nat) (path : List Char)
  | setPrefixPathStr (pre path str : Option (List Char))
  | setPrefixPathValonpath (pre : Option (List Char)) (path : List Char)
  | listPathNodes (pre : Option (List Char)) (size mode : Int)

def Call.exec (s : Nodes V) : Call V → Option (Int32 × Nodes V)
  | .registerPathNode path newNode => configsRegisterPathNode s path newNode
  | .registerPathConfigs path configs => configsRegisterPathConfigs s path configs
  | .setNodePathValue topnode path val size => configsSetNodePathValue ops s topnode path val size
  | .getNodePathValue topnode path size => configsGetNodePathValue ops s topnode path size
  | .setNodePathStr topnode path val => configsSetNodePathStr ops s topnode path val
  | .getNodePathStr topnode path size => configsGetNodePathStr ops s topnode path size
  | .setNodePathValonpath topnode path => configsSetNodePathValonpath ops s topnode path
  | .setPrefixPathStr pre path str => configsSetPrefixPathStr ops s pre path str
  | .setPrefixPathValonpath pre path => configsSetPrefixPathValonpath ops s pre path
  | .listPathNodes pre size mode => configsListPathNodes ops s pre size mode

end AmlogicV901d.Source.Configs
