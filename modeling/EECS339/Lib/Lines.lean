import EECS339.Lib.Tokens

/-!
# Lines of a text

A text is cut behind each newline; the last line may lack its newline. `chomp` takes
the newline off a line.
-/
namespace Lines

variable {α : Type*} [DecidableEq α] {newline : α} {l rest : List α}

def rawLines (newline : α) : List α → List (List α)
  | [] => []
  | a :: l =>
      if a = newline then [a] :: rawLines newline l
      else
        match rawLines newline l with
        | [] => [[a]]
        | first :: others => (a :: first) :: others

def chomp (newline : α) (l : List α) : List α :=
  if l.getLast? = some newline then l.dropLast else l

def lines (newline : α) (l : List α) : List (List α) := (rawLines newline l).map (chomp newline)

theorem rawLines_line (free : newline ∉ l) :
    rawLines newline (l ++ newline :: rest) = (l ++ [newline]) :: rawLines newline rest := by
  induction l with
  | nil => rw [List.nil_append, rawLines, if_pos rfl, List.nil_append]
  | cons a l ih =>
      obtain ⟨ne, free⟩ := List.ne_and_not_mem_of_not_mem_cons free
      rw [List.cons_append, rawLines, if_neg (Ne.symm ne), ih free]
      rfl

theorem chomp_append_newline : chomp newline (l ++ [newline]) = l := by
  rw [chomp, List.getLast?_concat, if_pos rfl, List.dropLast_concat]

theorem lines_line (free : newline ∉ l) :
    lines newline (l ++ newline :: rest) = l :: lines newline rest := by
  rw [lines, rawLines_line free, List.map_cons, chomp_append_newline]
  rfl

end Lines
