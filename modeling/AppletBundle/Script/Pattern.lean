import AppletBundle.Script.Node

/-!
# Patterns

What stands on the left of an assignment, and what stands between the parentheses of an arrow
function, is read as an expression first. `Node.toTarget` turns such an expression into the pattern
it is as the target of an assignment, `Node.toBinding` turns a target into one that declares its
names; both give nothing for an expression that is no pattern.
-/

namespace AppletBundle.Script.Node

/-- The names that a pattern or a declaration declares, in order. -/
def bindings : Node → List Binding
  | binding b => [b]
  | arrayPattern elements => ofList elements
  | objectPattern properties => ofList properties
  | patternProperty _ _ value => value.bindings
  | patternShorthand target _ => target.bindings
  | withDefault target _ => target.bindings
  | rest target => target.bindings
  | declarator target _ => target.bindings
  | variableList _ declarators => ofList declarators
  | function _ name .. => name.toList
  | classNode _ _ name .. => name.toList
  | commented _ statement => statement.bindings
  | _ => []
where
  /-- The names of a list of patterns. -/
  ofList : List Node → List Binding
    | [] => []
    | n :: ns => n.bindings ++ ofList ns

/-- A reference or a property, the targets that are no patterns. -/
def isSimpleTarget : Node → Bool
  | reference _ => true
  | member .. => true
  | privateMember .. => true
  | index .. => true
  | paren inner => inner.isSimpleTarget
  | _ => false

/-- The pattern that an expression is on the left of an assignment, and the offsets of the shorthand
properties with a default in it. -/
def toTarget : Node → Option (Node × List Nat)
  | reference b => some (reference b, [])
  | n@(member ..) => some (n, [])
  | n@(privateMember ..) => some (n, [])
  | n@(index ..) => some (n, [])
  | n@(arrayPattern _) => some (n, [])
  | n@(objectPattern _) => some (n, [])
  | paren inner => if inner.isSimpleTarget then some (paren inner, []) else none
  | array elements => (ofElements elements).map fun r ↦ (arrayPattern r.1, r.2)
  | object properties => (ofProperties properties).map fun r ↦ (objectPattern r.1, r.2)
  | _ => none
where
  /-- The elements of an array, each with an optional default; what collects the rest stands last and
  has none. -/
  ofElements : List Node → Option (List Node × List Nat)
    | [] => some ([], [])
    | [spread argument] => argument.toTarget.map fun r ↦ ([rest r.1], r.2)
    | hole :: ns => (ofElements ns).map fun r ↦ (hole :: r.1, r.2)
    | assign "=" target value :: ns =>
      (ofElements ns).map fun r ↦ (withDefault target value :: r.1, r.2)
    | n :: ns =>
      match n.toTarget, ofElements ns with
      | some (t, ds), some (ts, es) => some (t :: ts, ds ++ es)
      | _, _ => none
  /-- The properties of an object. -/
  ofProperties : List Node → Option (List Node × List Nat)
    | [] => some ([], [])
    | [spread argument] =>
      if argument.isSimpleTarget then some ([rest argument], []) else none
    | property key computed (assign "=" target value) :: ns =>
      (ofProperties ns).map fun r ↦
        (patternProperty key computed (withDefault target value) :: r.1, r.2)
    | property key computed value :: ns =>
      match value.toTarget, ofProperties ns with
      | some (t, ds), some (ts, es) => some (patternProperty key computed t :: ts, ds ++ es)
      | _, _ => none
    | shorthand b :: ns =>
      (ofProperties ns).map fun r ↦ (patternShorthand (reference b) none :: r.1, r.2)
    | shorthandDefault b value :: ns =>
      (ofProperties ns).map fun r ↦
        (patternShorthand (reference b) (some value) :: r.1, b.offset :: r.2)
    | _ => none

/-- The pattern that declares the names of a target. -/
def toBinding : Node → Option Node
  | reference b => some (binding b)
  | arrayPattern elements => (ofList elements).map arrayPattern
  | objectPattern properties => (ofList properties).map objectPattern
  | patternProperty key computed value => value.toBinding.map (patternProperty key computed)
  | patternShorthand target fallback => target.toBinding.map (patternShorthand · fallback)
  | withDefault target value => target.toBinding.map (withDefault · value)
  | rest target => target.toBinding.map rest
  | hole => some hole
  | _ => none
where
  /-- A list of targets. -/
  ofList : List Node → Option (List Node)
    | [] => some []
    | n :: ns =>
      match n.toBinding, ofList ns with
      | some p, some ps => some (p :: ps)
      | _, _ => none

end AppletBundle.Script.Node
