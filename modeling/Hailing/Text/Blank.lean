/-!
# Blank characters

A character is blank when Unicode gives it the property White_Space. The
table is closed: the standard has kept these twenty-five code points since
version 6.3, and `String.trim` of the core library knows only the ASCII part.
Free text that people type (a cancellation reason, a ride category) is cut
to its inner part by this rule, and a timestamp may be surrounded by it.
-/

namespace Hailing.Text

/-- The property White_Space of Unicode. -/
def isBlank (c : Char) : Bool :=
  let n := c.toNat
  (9 ≤ n && n ≤ 13) || n == 0x20 || n == 0x85 || n == 0xA0 || n == 0x1680 ||
  (0x2000 ≤ n && n ≤ 0x200A) || n == 0x2028 || n == 0x2029 || n == 0x202F ||
  n == 0x205F || n == 0x3000

def skipBlanks (cs : List Char) : List Char := cs.dropWhile isBlank

/-- What is left of a line without the blanks at its two ends. -/
def trimChars (cs : List Char) : List Char :=
  (skipBlanks (skipBlanks cs).reverse).reverse

def trim (s : String) : String := String.ofList (trimChars s.toList)

/-! ## What is left -/

/-- Something is left of a text, and no blank stands at either end of it. -/
structure IsInner (s : String) : Prop where
  nonempty : s ≠ ""
  first : ∀ c, s.toList.head? = some c → isBlank c = false
  last : ∀ c, s.toList.getLast? = some c → isBlank c = false

theorem head?_skipBlanks {cs : List Char} {c : Char}
    (h : (skipBlanks cs).head? = some c) : isBlank c = false := by
  have := List.head?_dropWhile_not isBlank cs
  rw [skipBlanks] at h
  rw [h] at this
  simpa using this

/-- What is skipped lies before what is left, so the end stays where it is. -/
theorem getLast?_skipBlanks {cs : List Char} {c : Char}
    (h : (skipBlanks cs).getLast? = some c) : cs.getLast? = some c := by
  obtain ⟨skipped, hcs⟩ := List.dropWhile_suffix isBlank (l := cs)
  rw [← hcs, List.getLast?_append]
  rw [skipBlanks] at h
  simp [h]

theorem trim_isInner {s : String} (h : trim s ≠ "") : IsInner (trim s) where
  nonempty := h
  first := by
    intro c hc
    rw [trim, String.toList_ofList, trimChars, List.head?_reverse] at hc
    have := getLast?_skipBlanks hc
    rw [List.getLast?_reverse] at this
    exact head?_skipBlanks this
  last := by
    intro c hc
    rw [trim, String.toList_ofList, trimChars, List.getLast?_reverse] at hc
    exact head?_skipBlanks hc

end Hailing.Text
