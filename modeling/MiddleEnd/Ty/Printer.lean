import MiddleEnd.Ty.Basic

/-! Types as text. -/

namespace MiddleEnd.Ty

def genericName (index : Nat) : String :=
  let letter := (Char.ofNat (97 + index % 26)).toString
  if index < 26 then "'" ++ letter else "'" ++ letter ++ toString (index / 26)

mutual
def render (name : Nat → String) : Ty → String
  | .prim primitive => primitive.name
  | .function params result =>
    " -> ".intercalate (renderParts name params ++ [renderPart name result])
  | .tuple elements => " * ".intercalate (renderParts name elements)
  | .app con element => renderPart name element ++ " " ++ con.name
  | .var number => "?" ++ toString number
  | .generic number => name number
def renderPart (name : Nat → String) : Ty → String
  | .function params result =>
    "(" ++ " -> ".intercalate (renderParts name params ++ [renderPart name result]) ++ ")"
  | .tuple elements => "(" ++ " * ".intercalate (renderParts name elements) ++ ")"
  | .app con element => renderPart name element ++ " " ++ con.name
  | .prim primitive => primitive.name
  | .var number => "?" ++ toString number
  | .generic number => name number
def renderParts (name : Nat → String) : List Ty → List String
  | [] => []
  | type :: types => renderPart name type :: renderParts name types
end

/-- Placeholders are named in the order in which they first appear. Links are not followed. -/
def print (type : Ty) : String :=
  let order := type.generics.eraseDups
  type.render (fun number => genericName (order.idxOf number))

mutual
def inspect : Ty → String
  | .prim primitive => "Type(" ++ primitive.label ++ ")"
  | .function params result =>
    "Type(Function \x7b parameters: [" ++ ", ".intercalate (inspectAll params) ++
      "], return_type: " ++ inspect result ++ " \x7d)"
  | .tuple elements => "Type(Tuple([" ++ ", ".intercalate (inspectAll elements) ++ "]))"
  | .app con element => "Type(" ++ con.label ++ "(" ++ inspect element ++ "))"
  | .var number => "Type(Variable(TypeVariableId(" ++ toString number ++ ")))"
  | .generic number => "Type(Generic(TypeVariableId(" ++ toString number ++ ")))"
def inspectAll : List Ty → List String
  | [] => []
  | type :: types => inspect type :: inspectAll types
end

end MiddleEnd.Ty
