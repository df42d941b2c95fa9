import DofNumbering.Local.Tree

namespace DofNumbering

/-! The JSON form of local trees, with the local indices of the leaves. -/

def LeafNode.toJson (node : LeafNode) : Except Fault Json := do
  let indices ← node.localIndices
  .ok (.object [("leaf", .object [("order", .nat node.finite.order), ("element", .nat node.element),
    ("offset", .nat node.offset), ("stride", .nat node.stride),
    ("local_indices", .indices indices)])])

namespace LocalNode

mutual

def toJson : LocalNode → Except Fault Json
  | .leaf node => node.toJson
  | .inner kind children size => do
      let items ← listToJson children
      .ok (.object [(kind.nodeKind.text, .array items), ("size", .nat size)])

def listToJson : List LocalNode → Except Fault (List Json)
  | [] => .ok []
  | child :: rest => do
      let item ← child.toJson
      let items ← listToJson rest
      .ok (item :: items)

end

end LocalNode

end DofNumbering
