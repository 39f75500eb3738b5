-- Texts in the order of their code points, each once.
namespace LightestFirst
namespace Text

def squeeze : List String → List String
  | [] => []
  | [only] => [only]
  | first :: second :: rest =>
    if first = second then squeeze (second :: rest) else first :: squeeze (second :: rest)

def sortedDistinct (texts : List String) : List String :=
  squeeze (texts.mergeSort (fun x y => decide (x ≤ y)))

theorem mem_squeeze {text : String} {texts : List String} : text ∈ squeeze texts ↔ text ∈ texts := by
  fun_induction squeeze texts with
  | case1 => simp
  | case2 => simp
  | case3 first rest same => simp_all
  | case4 first second rest different ih => simp [ih]

theorem mem_sortedDistinct {text : String} {texts : List String} :
    text ∈ sortedDistinct texts ↔ text ∈ texts := by
  simp [sortedDistinct, mem_squeeze]

end Text
end LightestFirst
