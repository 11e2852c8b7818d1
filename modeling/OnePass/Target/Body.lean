import OnePass.Target.Line

/-!
# The code of the built-in functions

Arguments lie on the data stack, the last one on top; the result is left there. Output has no code here, since
it is written out where it is called.

* `Target.bodyLabel` — the label of a built-in function;
* `Target.body?` — its lines.
-/

namespace OnePass.Target

def bodyLabel (name : String) : String := "$" ++ name

def here (name : String) : Place := ⟨.local, name⟩

def valueOf (name : String) : Operand := .place (here name)

def openFrame : List Line := [.createFrame, .pushFrame]

def returnFromFrame : List Line := [.popFrame, .ret]

def take (name : String) : List Line := [.defVar (here name), .pop (here name)]

def measure : List Line := [.defVar (here "len"), .strLen (here "len") (valueOf "s")]

def reading (label : String) (ty : InputType) : List Line :=
  [.label label] ++ openFrame ++
    [.defVar (here "result"), .read (here "result") ty, .push (valueOf "result")] ++ returnFromFrame

def lengthBody : List Line :=
  [.label "$length"] ++ openFrame ++ take "s" ++ measure ++ [.push (valueOf "len")] ++ returnFromFrame

def bailIf (outcome : Bool) : Line := .jumpIfEq "$substring$nil" (valueOf "cond") (.bool outcome)

def substringBody : List Line :=
  [.label "$substring"] ++ openFrame ++ take "j" ++ take "i" ++ take "s" ++ measure ++
    [.defVar (here "cond"),
      .lt (here "cond") (valueOf "i") (.int 0), bailIf true,
      .lt (here "cond") (valueOf "j") (.int 0), bailIf true,
      .gt (here "cond") (valueOf "i") (valueOf "j"), bailIf true,
      .lt (here "cond") (valueOf "i") (valueOf "len"), bailIf false,
      .gt (here "cond") (valueOf "j") (valueOf "len"), bailIf true,
      .defVar (here "result"), .move (here "result") (.string ""), .defVar (here "char"),
      .label "$substring$loop",
      .jumpIfEq "$substring$done" (valueOf "i") (valueOf "j"),
      .getChar (here "char") (valueOf "s") (valueOf "i"),
      .concat (here "result") (valueOf "result") (valueOf "char"),
      .add (here "i") (valueOf "i") (.int 1),
      .jump "$substring$loop",
      .label "$substring$done", .push (valueOf "result")] ++ returnFromFrame ++
    [.label "$substring$nil", .push .nil] ++ returnFromFrame

def ordBody : List Line :=
  [.label "$ord"] ++ openFrame ++ take "s" ++ measure ++
    [.jumpIfNeq "$ord$nonempty" (valueOf "len") (.int 0), .push (.int 0)] ++ returnFromFrame ++
    [.label "$ord$nonempty", .defVar (here "code"), .stri2int (here "code") (valueOf "s") (.int 0),
      .push (valueOf "code")] ++ returnFromFrame

def body? : String → Option (List Line)
  | "readString" => some (reading "$readString" .string)
  | "readInt" => some (reading "$readInt" .int)
  | "readDouble" => some (reading "$readDouble" .float)
  | "Int2Double" => some [.label "$Int2Double", .int2floats, .ret]
  | "Double2Int" => some [.label "$Double2Int", .float2ints, .ret]
  | "length" => some lengthBody
  | "substring" => some substringBody
  | "ord" => some ordBody
  | "chr" => some [.label "$chr", .int2chars, .ret]
  | _ => none

end OnePass.Target
