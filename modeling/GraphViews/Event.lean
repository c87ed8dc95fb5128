import GraphViews.Violation
/-!
# The journal

What a graph notes while it is being changed. The erasure of a node is framed by two entries of its own,
which come whether or not the node was there. Asking a graph something notes nothing.
-/

namespace GraphViews

/-- One entry of the journal. Nodes stand as the caller wrote them. -/
inductive Event (ν : Type) where
  | nodeInserted (x : ν)
  | edgeInserted (u v : ν) (isNew : Bool)
  | erasureEntered
  | nodeErased (x : ν) (degree : Nat)
  | erasureLeft
  | edgeErased (u v : ν)
  | violated (violation : Violation ν)

/-- The line that the journal shows for an entry. -/
def Event.line {ν : Type} [Written ν] : Event ν → String
  | nodeInserted x => "TRACE add_node node=" ++ Written.quoted x
  | edgeInserted u v isNew =>
    "TRACE put_edge node_u=" ++ Written.quoted u ++ " node_v=" ++ Written.quoted v ++
    " is_new=" ++ flagText isNew
  | erasureEntered => "enter INFO remove_node"
  | nodeErased x degree =>
    "TRACE remove_node node=" ++ Written.quoted x ++ " degree=" ++ toString degree
  | erasureLeft => "exit INFO remove_node"
  | edgeErased u v => "TRACE remove_edge node_u=" ++ Written.quoted u ++ " node_v=" ++ Written.quoted v
  | violated violation => "DEBUG graph contract violation error=" ++ violation.message

end GraphViews
