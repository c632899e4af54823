/-
# Lists of texts that are read back

A list of texts that need no escapes reads back as the list. A reader inside a string takes over
every character up to the closing quote, so what stands behind the string does not matter to it,
and the list is read one text after the other.
-/
import OperationQueue.Text.JsonText

namespace OperationQueue.JsonText

variable {c : Char} {cs : List Char} {text : String} {texts : List String}

/-- A character that stands for itself in a string. -/
def IsPlain (c : Char) : Prop := c ≠ '"' ∧ c ≠ '\\' ∧ 0x20 ≤ c.toNat

instance (c : Char) : Decidable (IsPlain c) := inferInstanceAs (Decidable (_ ∧ _))

theorem tokens?_plain (h : IsPlain c) (read rest : List Char) :
    tokens? (.inside read) (c :: rest) = tokens? (.inside (c :: read)) rest := by
  obtain ⟨hquote, hescape, hcontrol⟩ := h
  rw [tokens?, if_neg hquote, if_neg (Nat.not_lt.2 hcontrol), if_neg hescape]
  · exact fun _ _ _ _ _ heq => absurd heq hescape
  · exact fun _ _ heq => absurd heq hescape

theorem tokens?_close (read rest : List Char) :
    tokens? (.inside read) ('"' :: rest) = (tokens? .between rest).map (.string read.reverse :: ·) := by
  rw [tokens?, if_pos rfl]
  · exact fun _ _ _ _ _ heq => absurd heq (by decide)
  · exact fun _ _ heq => absurd heq (by decide)

/-- A reader inside a string reads on to the closing quote. -/
theorem tokens?_inside (h : ∀ c ∈ cs, IsPlain c) (read rest : List Char) :
    tokens? (.inside read) (cs ++ '"' :: rest) =
      (tokens? .between rest).map (.string (read.reverse ++ cs) :: ·) := by
  induction cs generalizing read with
  | nil =>
      rw [List.append_nil]
      exact tokens?_close read rest
  | cons c more ih =>
      rw [List.cons_append, tokens?_plain (h c List.mem_cons_self),
        ih (fun d hd => h d (List.mem_cons_of_mem _ hd)), List.reverse_cons, List.append_assoc]
      rfl

theorem tokens?_string (h : ∀ c ∈ cs, IsPlain c) (rest : List Char) :
    tokens? .between ('"' :: (cs ++ '"' :: rest)) =
      (tokens? .between rest).map (.string cs :: ·) := by
  rw [tokens?, if_neg (by decide), if_pos rfl]
  · exact tokens?_inside h [] rest
  · exact fun _ heq => absurd heq (by decide)

theorem tokens?_mark (h : c ∈ ['[', ']', ',']) (rest : List Char) :
    tokens? .between (c :: rest) = (tokens? .between rest).map (.mark c :: ·) := by
  have hc : c = '[' ∨ c = ']' ∨ c = ',' := by simpa using h
  rcases hc with rfl | rfl | rfl
  all_goals
    rw [tokens?, if_neg (by decide), if_neg (by decide), if_pos (by decide)]
    exact fun _ heq => absurd heq (by decide)

/-- The characters of a list behind its first text. -/
def remainder : List String → List Char
  | [] => [']']
  | text :: more => ',' :: '"' :: (text.toList ++ '"' :: remainder more)

theorem toList_listPlain (text : String) (texts : List String) :
    (listPlain (text :: texts)).toList = '[' :: '"' :: (text.toList ++ '"' :: remainder texts) := by
  have hjoined : (String.intercalate "," ((text :: texts).map quotePlain) ++ "]").toList =
      '"' :: (text.toList ++ '"' :: remainder texts) := by
    induction texts generalizing text with
    | nil => simp [quotePlain, remainder]
    | cons next more ih =>
        have hnext := ih next
        rw [List.map_cons, String.toList_append] at hnext
        rw [List.map_cons, List.map_cons, String.intercalate_cons_cons, String.toList_append,
          String.toList_append, List.append_assoc, hnext]
        simp [quotePlain, remainder]
  rw [listPlain, String.append_assoc, String.toList_append, hjoined]
  rfl

theorem tokens?_remainder (h : ∀ text ∈ texts, ∀ c ∈ text.toList, IsPlain c) :
    (tokens? .between (remainder texts)).bind moreStrings? = some texts := by
  induction texts with
  | nil => decide
  | cons text more ih =>
      have hmore := ih fun later hlater => h later (List.mem_cons_of_mem _ hlater)
      rw [remainder, tokens?_mark (by decide), tokens?_string (h text List.mem_cons_self)]
      cases htokens : tokens? .between (remainder more) with
      | none =>
          rw [htokens] at hmore
          cases hmore
      | some tokens =>
          rw [htokens, Option.bind_some] at hmore
          rw [Option.map_some, Option.map_some, Option.bind_some, moreStrings?, hmore,
            Option.map_some, String.ofList_toList]

/-- A list of texts that need no escapes reads back as the list. -/
theorem strings?_listPlain (h : ∀ text ∈ texts, ∀ c ∈ text.toList, IsPlain c) :
    strings? (listPlain texts) = some texts := by
  cases texts with
  | nil => decide
  | cons text more =>
      have hmore := tokens?_remainder fun later hlater => h later (List.mem_cons_of_mem _ hlater)
      rw [strings?, toList_listPlain, tokens?_mark (by decide),
        tokens?_string (h text List.mem_cons_self)]
      cases htokens : tokens? .between (remainder more) with
      | none =>
          rw [htokens] at hmore
          cases hmore
      | some tokens =>
          rw [htokens, Option.bind_some] at hmore
          show (moreStrings? tokens).map (String.ofList text.toList :: ·) = some (text :: more)
          rw [hmore, Option.map_some, String.ofList_toList]

end OperationQueue.JsonText
