/-! Blank space and lines of a text. Texts are lists of characters here; trimming removes blank
characters at the ends, and a line ends at a line feed, which may follow a carriage return. -/
namespace AccessRules
namespace Text

/-- The twenty-five characters with the Unicode property White_Space. -/
def isBlank (c : Char) : Bool :=
  let n := c.toNat
  (9 ≤ n && n ≤ 13) || n == 0x20 || n == 0x85 || n == 0xA0 || n == 0x1680 ||
    (0x2000 ≤ n && n ≤ 0x200A) || n == 0x2028 || n == 0x2029 || n == 0x202F || n == 0x205F ||
    n == 0x3000

def trimStart (cs : List Char) : List Char := cs.dropWhile isBlank

def trimEnd (cs : List Char) : List Char := (cs.reverse.dropWhile isBlank).reverse

def trim (cs : List Char) : List Char := trimEnd (trimStart cs)

@[simp] theorem trimStart_nil : trimStart [] = [] := rfl
@[simp] theorem trimEnd_nil : trimEnd [] = [] := rfl

/-- The lines of a text without their ends. A text that ends with a line feed has no empty line
after it, and a carriage return belongs to the line end only directly before a line feed. -/
def lines : List Char → List (List Char)
  | [] => []
  | '\n' :: rest => [] :: lines rest
  | '\r' :: '\n' :: rest => [] :: lines rest
  | c :: rest =>
    match lines rest with
    | [] => [[c]]
    | line :: more => (c :: line) :: more

@[simp] theorem lines_nil : lines [] = [] := rfl
@[simp] theorem lines_lf (rest : List Char) : lines ('\n' :: rest) = [] :: lines rest := by
  rw [lines]
@[simp] theorem lines_crlf (rest : List Char) :
    lines ('\r' :: '\n' :: rest) = [] :: lines rest := by
  rw [lines]

end Text
end AccessRules
