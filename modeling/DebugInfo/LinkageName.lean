/-!
Linkage names of methods. Debuggers divide a qualified name at double colons,
so every dot of the type's full name becomes one and a last one stands before
the method. The method's own name is kept as it is, dots included: a
constructor `.ctor` of `A.B` is `A::B::.ctor`.
-/

namespace DebugInfo

/-- What divides the parts of a linkage name. -/
def separator : List Char := [':', ':']

/-- Each dot becomes a separator and every other character stays. -/
def expandDots (text : List Char) : List Char :=
  text.flatMap fun c => if c = '.' then separator else [c]

/-- The linkage name of a method of a type. -/
def linkageName (typeName method : String) : String :=
  String.ofList (expandDots typeName.toList ++ separator ++ method.toList)

@[simp] theorem expandDots_cons (c : Char) (rest : List Char) :
    expandDots (c :: rest) =
      (if c = '.' then separator else [c]) ++ expandDots rest := rfl

@[simp] theorem expandDots_append (first second : List Char) :
    expandDots (first ++ second) = expandDots first ++ expandDots second := by
  simp [expandDots]

theorem toList_linkageName (typeName method : String) :
    (linkageName typeName method).toList =
      expandDots typeName.toList ++ separator ++ method.toList := by
  simp [linkageName]

end DebugInfo
