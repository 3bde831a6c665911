/-! The two braces, and texts with braces around them or behind them. -/
namespace AccessRules
namespace Text

@[simp] abbrev leftBrace : Char := '\x7b'

@[simp] abbrev rightBrace : Char := '\x7d'

/-- A heading and the brace that it opens. -/
def opened (heading : String) : String := heading ++ " " ++ String.singleton leftBrace

def braced (inside : String) : String :=
  String.singleton leftBrace ++ inside ++ String.singleton rightBrace

@[simp] theorem toList_opened (heading : String) :
    (opened heading).toList = heading.toList ++ [' ', leftBrace] := by
  simp [opened]

@[simp] theorem toList_braced (inside : String) :
    (braced inside).toList = leftBrace :: (inside.toList ++ [rightBrace]) := by
  simp [braced]

@[simp] theorem opened_inj {a b : String} : opened a = opened b ↔ a = b := by
  rw [← String.toList_inj, toList_opened, toList_opened, List.append_cancel_right_eq,
    String.toList_inj]

end Text
end AccessRules
