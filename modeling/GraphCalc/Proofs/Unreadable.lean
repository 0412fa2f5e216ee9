import GraphCalc.Proofs.LongestSpelling
import Mathlib.Data.List.Induction

set_option autoImplicit false

namespace GraphCalc

-- The text before a character of a line, both counted from one.
def textBefore (text : List Char) (place : Place) : List Char :=
  ((text.splitOn '\n').take (place.line - 1)).flatMap (· ++ ['\n']) ++
    ((text.splitOn '\n').getD (place.line - 1) []).take (place.column - 1)

def textFrom (text : List Char) (place : Place) : List Char := text.drop (textBefore text place).length

def Place.Within (place : Place) (text : List Char) : Prop :=
  1 ≤ place.line ∧ 1 ≤ place.column ∧
    ∃ line, (text.splitOn '\n')[place.line - 1]? = some line ∧ place.column ≤ line.length

-- Whether a string is open after a token of one byte.
def stringPast (inString : Bool) (b : UInt8) : Bool :=
  if b = Byte.quote then !inString else if b = Byte.store ∨ b = Byte.newline then false else inString

def stringAfter : Bool → Bytes → Bool
  | inString, [] => inString
  | inString, [b] => stringPast inString b
  | inString, b :: second :: rest =>
    if Byte.isTwoByte b then stringAfter inString rest else stringAfter (stringPast inString b) (second :: rest)

-- No token begins here, and nothing that is passed over.
def Unreadable (inString : Bool) (text : List Char) : Prop :=
  ∃ c cs, text = c :: cs ∧ c ≠ '\n' ∧ c ≠ '\r' ∧
    if inString then
      ¬ ['-', '>'] <+: text ∧ ¬ ('a' ≤ c ∧ c ≤ 'z') ∧ c ≠ ' ' ∧ ∀ s ∈ Spelling.all, s.text ≠ [c]
    else c ≠ ' ' ∧ c ≠ '\t' ∧ ∀ s ∈ Spelling.all, ¬ s.text <+: text

namespace Place

def past (place : Place) (c : Char) : Place :=
  if c = '\n' then ⟨place.line + 1, 1⟩ else ⟨place.line, place.column + 1⟩

-- Whole lines and the beginning of one, with the place right after them.
def Located (place : Place) (text : List Char) : Prop :=
  ∃ (whole : List (List Char)) (begun : List Char), text = whole.flatMap (· ++ ['\n']) ++ begun ∧
    (∀ line ∈ whole, '\n' ∉ line) ∧ '\n' ∉ begun ∧ place = ⟨whole.length + 1, begun.length + 1⟩

theorem start_located : Reading.start.place.Located [] := ⟨[], [], rfl, nofun, nofun, rfl⟩

theorem past_located (place : Place) (text : List Char) (c : Char) (located : place.Located text) :
    (place.past c).Located (text ++ [c]) := by
  obtain ⟨whole, begun, rfl, wholeLines, begunLine, rfl⟩ := located
  by_cases line : c = '\n'
  · subst line
    refine ⟨whole ++ [begun], [], by simp, ?_, by simp, by simp [past]⟩
    intro l member
    rcases List.mem_append.mp member with earlier | last
    · exact wholeLines l earlier
    · rw [List.mem_singleton.mp last]
      exact begunLine
  · refine ⟨whole, begun ++ [c], by simp, wholeLines, ?_, by simp [past, line]⟩
    simpa [Ne.symm line] using begunLine

theorem fold_located (place : Place) (text more : List Char) (located : place.Located text) :
    (more.foldl past place).Located (text ++ more) := by
  induction more generalizing place text with
  | nil => simpa using located
  | cons c more ih =>
      have next := ih (place.past c) (text ++ [c]) (place.past_located text c located)
      rwa [List.append_assoc, List.singleton_append] at next

theorem fold_in_line (place : Place) (text : List Char) (inLine : '\n' ∉ text) :
    text.foldl past place = ⟨place.line, place.column + text.length⟩ := by
  induction text generalizing place with
  | nil => rfl
  | cons c text ih =>
      obtain ⟨other, later⟩ := not_or.mp (mt List.mem_cons.mpr inLine)
      rw [List.foldl_cons, ih _ later, past, if_neg (Ne.symm other), List.length_cons, Nat.add_assoc, Nat.add_comm 1]

theorem split_lines (whole : List (List Char)) (rest : List Char) (lines : ∀ line ∈ whole, '\n' ∉ line) :
    (whole.flatMap (· ++ ['\n']) ++ rest).splitOn '\n' = whole ++ rest.splitOn '\n' := by
  induction whole with
  | nil => rfl
  | cons line whole ih =>
      obtain ⟨first, others⟩ := List.forall_mem_cons.mp lines
      rw [List.flatMap_cons, List.append_assoc, List.append_assoc, List.singleton_append,
        List.splitOn_append_cons_self_of_not_mem first, ih others, List.cons_append]

theorem split_begun (begun : List Char) (c : Char) (cs : List Char) (inLine : '\n' ∉ begun) (other : c ≠ '\n') :
    ∃ ending more, (begun ++ c :: cs).splitOn '\n' = (begun ++ c :: ending) :: more := by
  induction begun with
  | nil =>
      obtain ⟨first, more, split⟩ := List.exists_cons_of_ne_nil (List.splitOn_ne_nil '\n' cs)
      refine ⟨first, more, ?_⟩
      rw [List.nil_append, List.splitOn_cons_eq_if_modifyHead, if_neg (by simpa using other), split]
      rfl
  | cons d begun ih =>
      obtain ⟨different, later⟩ := not_or.mp (mt List.mem_cons.mpr inLine)
      obtain ⟨ending, more, split⟩ := ih later
      refine ⟨ending, more, ?_⟩
      rw [List.cons_append, List.splitOn_cons_eq_if_modifyHead, if_neg (by simpa using Ne.symm different), split]
      rfl

theorem located_cut (place : Place) (text : List Char) (c : Char) (cs : List Char) (located : place.Located text)
    (other : c ≠ '\n') :
    place.Within (text ++ c :: cs) ∧ textBefore (text ++ c :: cs) place = text ∧ textFrom (text ++ c :: cs) place = c :: cs := by
  obtain ⟨whole, begun, rfl, wholeLines, begunLine, rfl⟩ := located
  obtain ⟨ending, more, line⟩ := split_begun begun c cs begunLine other
  have split := split_lines whole (begun ++ c :: cs) wholeLines
  rw [line, ← List.append_assoc] at split
  have here : (whole ++ (begun ++ c :: ending) :: more)[whole.length]? = some (begun ++ c :: ending) := by simp
  have before : textBefore (whole.flatMap (· ++ ['\n']) ++ begun ++ c :: cs) ⟨whole.length + 1, begun.length + 1⟩ =
      whole.flatMap (· ++ ['\n']) ++ begun := by
    rw [textBefore, split, Nat.add_sub_cancel, Nat.add_sub_cancel, List.take_left, List.getD_eq_getElem?_getD, here,
      Option.getD_some, List.take_left]
  refine ⟨⟨Nat.succ_pos _, Nat.succ_pos _, begun ++ c :: ending, ?_, by simp⟩, before, ?_⟩
  · rw [split, Nat.add_sub_cancel, here]
  rw [textFrom, before, List.drop_left]

end Place

namespace Spelling

theorem longer_cases (found : Option Spelling) (last s : Spelling) (chosen : longer found last = some s) :
    (s = last ∧ ∀ best ∈ found, best.text.length ≤ last.text.length) ∨ (found = some s ∧ last.text.length < s.text.length) := by
  cases found with
  | none => exact Or.inl ⟨(Option.some.inj chosen).symm, nofun⟩
  | some best =>
      rw [longer] at chosen
      by_cases grows : best.text.length ≤ last.text.length
      · rw [if_pos grows] at chosen
        exact Or.inl ⟨(Option.some.inj chosen).symm, fun b same => by cases same; exact grows⟩
      · rw [if_neg grows] at chosen
        cases chosen
        exact Or.inr ⟨rfl, Nat.lt_of_not_le grows⟩

theorem longest_of_append (candidates : List Spelling) (last : Spelling) :
    longestOf (candidates ++ [last]) = longer (longestOf candidates) last := by
  rw [longestOf, longestOf, List.foldl_append]
  rfl

theorem longest_of_filter (keep : Spelling → Bool) (candidates : List Spelling) (s : Spelling)
    (found : longestOf candidates = some s) (kept : keep s = true) : longestOf (candidates.filter keep) = some s := by
  induction candidates using List.reverseRecOn with
  | nil => cases found
  | append_singleton candidates last ih =>
      rw [longest_of_append] at found
      rw [List.filter_append]
      rcases longer_cases _ last s found with ⟨rfl, bound⟩ | ⟨earlier, shorter⟩
      · rw [List.filter_cons_of_pos kept, List.filter_nil, longest_of_append]
        cases chosen : longestOf (candidates.filter keep) with
        | none => rfl
        | some best =>
            -- What is chosen among fewer spellings is no longer than what is chosen among all.
            have among : best ∈ candidates := by
              rcases longer_chosen none _ best chosen with nothing | member
              · cases nothing
              · exact (List.mem_filter.mp member).1
            obtain ⟨longest, same, longer⟩ := longer_bounds candidates none best among
            exact if_pos (Nat.le_trans longer (bound longest same))
      · by_cases keepLast : keep last = true
        · rw [List.filter_cons_of_pos keepLast, List.filter_nil, longest_of_append, ih earlier]
          exact if_neg (Nat.not_le_of_lt shorter)
        · rw [List.filter_cons_of_neg keepLast, List.filter_nil, List.append_nil]
          exact ih earlier

theorem prefix_truncated (text chars more : List Char) :
    text <+: chars ↔ text <+: chars ++ more ∧ text.length ≤ chars.length := by
  constructor
  · exact fun begins => ⟨begins.trans (List.prefix_append _ _), begins.length_le⟩
  · exact fun ⟨begins, short⟩ => List.prefix_of_prefix_length_le begins (List.prefix_append _ _) short

theorem longest_truncated (afterDigit : Bool) (chars more : List Char) (s : Spelling)
    (found : longest? afterDigit (chars ++ more) = some s) (short : s.text.length ≤ chars.length) :
    longest? afterDigit chars = some s := by
  have fewer : all.filter (fits afterDigit chars) =
      (all.filter (fits afterDigit (chars ++ more))).filter (·.text.length ≤ chars.length) := by
    rw [List.filter_filter]
    apply List.filter_congr
    intro candidate _
    have begins := prefix_truncated candidate.text chars more
    rw [fits, fits, Bool.eq_iff_iff]
    simp only [Bool.and_eq_true, List.isPrefixOf_iff_prefix, decide_eq_true_eq, begins]
    tauto
  change longestOf (all.filter (fits afterDigit chars)) = some s
  rw [fewer]
  exact longest_of_filter _ _ s found (decide_eq_true short)

-- The shape of every token in the table, and the spellings that make another one readable.
theorem token_table :
    (∀ s ∈ all, (∃ b, s.bytes = [b] ∧ Byte.isTwoByte b = false) ∨
      ∃ b second, s.bytes = [b, second] ∧ Byte.isTwoByte b = true) ∧
      ⟨['1'], [0x31]⟩ ∈ all ∧ ⟨['-', '>'], [0x04]⟩ ∈ all := by
  have checked : (∀ s ∈ all, (s.bytes.length = 1 ∧ s.bytes.all (fun b => !Byte.isTwoByte b)) ∨
      (s.bytes.length = 2 ∧ s.bytes.head?.any Byte.isTwoByte)) ∧
      ⟨['1'], [0x31]⟩ ∈ all ∧ ⟨['-', '>'], [0x04]⟩ ∈ all := by decide +kernel
  refine ⟨fun s member => ?_, checked.2⟩
  rcases checked.1 s member with ⟨size, single⟩ | ⟨size, double⟩
  · obtain ⟨b, bytes⟩ := List.length_eq_one_iff.mp size
    rw [bytes] at single
    exact Or.inl ⟨b, bytes, by simpa using single⟩
  · obtain ⟨b, others, bytes⟩ := List.exists_cons_of_length_eq_add_one size
    rw [bytes, List.length_cons] at size
    obtain ⟨second, rfl⟩ := List.length_eq_one_iff.mp (Nat.succ.inj size)
    rw [bytes] at double
    exact Or.inr ⟨b, second, bytes, double⟩

-- The power of ten begins with a digit, so that leaving it out leaves no text without a spelling.
theorem longest_none (afterDigit : Bool) (chars : List Char) (none : longest? afterDigit chars = none) :
    ∀ s ∈ all, ¬ s.text <+: chars := by
  have absent (s : Spelling) (member : s ∈ all) : fits afterDigit chars s = false := by
    by_contra fitting
    obtain ⟨best, _, found, _⟩ := longest_maximal afterDigit chars s member (by simpa using fitting)
    rw [none] at found
    cases found
  intro s member begins
  by_cases power : s.text = tenPower
  · have digit := absent _ token_table.2.1
    have one : ['1'] <+: chars := by
      rw [power] at begins
      exact (by decide : ['1'] <+: tenPower).trans begins
    simp [fits, List.isPrefixOf_iff_prefix.mpr one, tenPower] at digit
  · have fitting := absent s member
    simp [fits, List.isPrefixOf_iff_prefix.mpr begins, power] at fitting

end Spelling

namespace Reading

theorem token_truncated (r : Reading) (c : Char) (cs more : List Char) (bytes : Bytes) (used : Nat)
    (found : r.token? c (cs ++ more) = some (bytes, used)) (within : used ≤ cs.length) :
    r.token? c cs = some (bytes, used) := by
  obtain ⟨s, chosen, same⟩ := Option.map_eq_some_iff.mp found
  cases same
  have short : s.text.length ≤ (c :: cs).length := by
    rw [List.length_cons]
    omega
  rw [token?, Spelling.longest_truncated r.afterDigit (c :: cs) more s chosen short]
  rfl

theorem arrow_used (r : Reading) (cs : List Char) (bytes : Bytes) (used : Nat) (arrow : cs.head? = some '>')
    (found : r.token? '-' cs = some (bytes, used)) : 1 ≤ used := by
  obtain ⟨rest, rfl⟩ := List.head?_eq_some_iff.mp arrow
  obtain ⟨s, chosen, same⟩ := Option.map_eq_some_iff.mp found
  cases same
  have fitting : Spelling.fits r.afterDigit ('-' :: '>' :: rest) ⟨['-', '>'], [0x04]⟩ = true := by
    simp [Spelling.fits, Spelling.tenPower]
  obtain ⟨best, _, longest, _, bound⟩ := Spelling.longest_maximal _ _ _ Spelling.token_table.2.2 fitting
  cases chosen.symm.trans longest
  exact Nat.le_sub_of_add_le bound

theorem string_token_truncated (r : Reading) (c : Char) (cs more : List Char) (bytes : Bytes) (used : Nat)
    (found : r.stringToken? c (cs ++ more) = some (bytes, used)) (within : used ≤ cs.length) :
    r.stringToken? c cs = some (bytes, used) := by
  unfold stringToken? at found ⊢
  cases letter : lowercaseByte? c with rw [letter] at found
  | some b => exact found
  | none =>
      dsimp only at found ⊢
      by_cases blank : c = ' '
      · rw [if_pos blank] at found ⊢
        exact found
      · rw [if_neg blank] at found ⊢
        by_cases arrow : c = '-' ∧ (cs ++ more).head? = some '>'
        · rw [if_pos arrow] at found
          obtain ⟨rfl, head⟩ := arrow
          have left := Nat.le_trans (r.arrow_used _ bytes used head found) within
          obtain ⟨d, rest, rfl⟩ := List.exists_cons_of_length_pos left
          rw [if_pos ⟨rfl, head⟩]
          exact r.token_truncated '-' (d :: rest) more bytes used found within
        · have none : ¬ (c = '-' ∧ cs.head? = some '>') := by
            rintro ⟨minus, head⟩
            obtain ⟨rest, rfl⟩ := List.head?_eq_some_iff.mp head
            exact arrow ⟨minus, rfl⟩
          rw [if_neg arrow] at found
          rw [if_neg none]
          exact found

theorem read_truncated (r : Reading) (c : Char) (cs more : List Char) (bytes : Bytes) (used : Nat)
    (found : r.read? c (cs ++ more) = some (bytes, used)) (within : used ≤ cs.length) :
    r.read? c cs = some (bytes, used) := by
  rw [read?] at found ⊢
  by_cases line : c = '\n'
  · rw [if_pos line] at found ⊢
    exact found
  · rw [if_neg line] at found ⊢
    by_cases skipped : c = '\r' ∨ (r.inString = false ∧ (c = ' ' ∨ c = '\t'))
    · rw [if_pos skipped] at found ⊢
      exact found
    · rw [if_neg skipped] at found ⊢
      by_cases inside : r.inString = true
      · rw [if_pos inside] at found ⊢
        exact r.string_token_truncated c cs more bytes used found within
      · rw [if_neg inside] at found ⊢
        exact r.token_truncated c cs more bytes used found within

inductive OneToken : Bytes → Prop where
  | nothing : OneToken []
  | single (b : UInt8) (alone : Byte.isTwoByte b = false) : OneToken [b]
  | double (b second : UInt8) (pair : Byte.isTwoByte b = true) : OneToken [b, second]

theorem spelling_one_token (s : Spelling) (member : s ∈ Spelling.all) : OneToken s.bytes := by
  rcases Spelling.token_table.1 s member with ⟨b, bytes, alone⟩ | ⟨b, second, bytes, pair⟩
  · rw [bytes]
    exact .single b alone
  · rw [bytes]
    exact .double b second pair

theorem token_one_token (r : Reading) (c : Char) (cs : List Char) (bytes : Bytes) (used : Nat)
    (found : r.token? c cs = some (bytes, used)) : OneToken bytes := by
  obtain ⟨s, chosen, same⟩ := Option.map_eq_some_iff.mp found
  cases same
  exact spelling_one_token s (Spelling.longest_found _ _ s chosen).1

theorem string_token_one_token (r : Reading) (c : Char) (cs : List Char) (bytes : Bytes) (used : Nat)
    (found : r.stringToken? c cs = some (bytes, used)) : OneToken bytes := by
  unfold stringToken? at found
  cases letter : lowercaseByte? c with rw [letter] at found
  | some b =>
      cases found
      exact .double Byte.lowercase b rfl
  | none =>
      dsimp only at found
      split at found
      · cases found
        exact .single Byte.space rfl
      · split at found
        · exact r.token_one_token c cs bytes used found
        · obtain ⟨spelled, ofText, same⟩ := Option.map_eq_some_iff.mp found
          cases same
          obtain ⟨s, member, rfl⟩ := Spelling.of_text_found [c] bytes ofText
          exact spelling_one_token s member

theorem read_one_token (r : Reading) (c : Char) (cs : List Char) (bytes : Bytes) (used : Nat)
    (found : r.read? c cs = some (bytes, used)) : OneToken bytes := by
  unfold read? at found
  split at found
  · cases found
    exact .single Byte.newline rfl
  · split at found
    · cases found
      exact .nothing
    · split at found
      · exact r.string_token_one_token c cs bytes used found
      · exact r.token_one_token c cs bytes used found

theorem string_after_token (inString : Bool) (bytes more : Bytes) (token : OneToken bytes) :
    stringAfter inString (bytes ++ more) = stringAfter (stringAfter inString bytes) more := by
  cases token with
  | nothing => rfl
  | single b alone =>
      cases more with
      | nil => rfl
      | cons second rest => simp [stringAfter, alone]
  | double b second pair => simp [stringAfter, pair]

theorem after_string (r : Reading) (c : Char) (cs : List Char) (bytes : Bytes) (used : Nat)
    (found : r.read? c cs = some (bytes, used)) : (r.after c bytes used).inString = stringAfter r.inString bytes := by
  have newlines := (r.read_reads c cs bytes used found).newlines
  by_cases line : c = '\n'
  · subst line
    cases found
    rfl
  · have inLine : Byte.newline ∉ bytes := by
      have none : [c].count '\n' = 0 := List.count_eq_zero.mpr (by simpa using Ne.symm line)
      exact List.count_eq_zero.mp (newlines.trans none)
    rw [after, if_neg line]
    cases r.read_one_token c cs bytes used found with
    | nothing => simp [stringAfter]
    | single b alone =>
        have other : b ≠ Byte.newline := fun same => inLine (by simp [same])
        simp [stringAfter, stringPast, other]
    | double b second pair => simp [stringAfter, pair]

theorem after_place (r : Reading) (c : Char) (cs : List Char) (bytes : Bytes) (used : Nat)
    (found : r.read? c cs = some (bytes, used)) :
    (r.after c bytes used).place = (c :: cs.take used).foldl Place.past r.place := by
  have reads := r.read_reads c cs bytes used found
  rw [List.foldl_cons, Place.fold_in_line _ _ reads.inLine, List.length_take, Nat.min_eq_left reads.within]
  by_cases line : c = '\n'
  · subst line
    cases found
    rfl
  · rw [after, if_neg line, Place.past, if_neg line]

theorem string_token_none (r : Reading) (c : Char) (cs : List Char) (none : r.stringToken? c cs = none) :
    ¬ ['-', '>'] <+: c :: cs ∧ ¬ ('a' ≤ c ∧ c ≤ 'z') ∧ c ≠ ' ' ∧ ∀ s ∈ Spelling.all, s.text ≠ [c] := by
  unfold stringToken? at none
  cases letter : lowercaseByte? c with rw [letter] at none
  | some b => cases none
  | none =>
      dsimp only at none
      by_cases blank : c = ' '
      · rw [if_pos blank] at none
        cases none
      · rw [if_neg blank] at none
        have notLetter : ¬ ('a' ≤ c ∧ c ≤ 'z') := by
          intro within
          rw [lowercaseByte?, if_pos within] at letter
          cases letter
        by_cases arrow : c = '-' ∧ cs.head? = some '>'
        · rw [if_pos arrow] at none
          obtain ⟨rfl, head⟩ := arrow
          obtain ⟨rest, rfl⟩ := List.head?_eq_some_iff.mp head
          have absent := Spelling.longest_none r.afterDigit _ (Option.map_eq_none_iff.mp none) _ Spelling.token_table.2.2
          exact absurd (List.prefix_append ['-', '>'] rest) absent
        · rw [if_neg arrow] at none
          refine ⟨fun begins => arrow ?_, notLetter, blank, fun s member text => ?_⟩
          · obtain ⟨rest, same⟩ := begins
            cases same
            exact ⟨rfl, rfl⟩
          · have unfound := List.find?_eq_none.mp (Option.map_eq_none_iff.mp (Option.map_eq_none_iff.mp none)) s member
            exact unfound (by simp [text])

theorem read_none (r : Reading) (c : Char) (cs : List Char) (none : r.read? c cs = none) :
    Unreadable r.inString (c :: cs) := by
  rw [read?] at none
  by_cases line : c = '\n'
  · rw [if_pos line] at none
    cases none
  · rw [if_neg line] at none
    by_cases skipped : c = '\r' ∨ (r.inString = false ∧ (c = ' ' ∨ c = '\t'))
    · rw [if_pos skipped] at none
      cases none
    · rw [if_neg skipped] at none
      obtain ⟨notReturn, visible⟩ := not_or.mp skipped
      refine ⟨c, cs, rfl, line, notReturn, ?_⟩
      cases inside : r.inString with
      | false =>
          rw [inside, if_neg Bool.false_ne_true] at none
          obtain ⟨notBlank, notTab⟩ := not_or.mp (fun blank => visible ⟨inside, blank⟩)
          rw [if_neg Bool.false_ne_true]
          exact ⟨notBlank, notTab, Spelling.longest_none r.afterDigit (c :: cs) (Option.map_eq_none_iff.mp none)⟩
      | true =>
          rw [inside, if_pos rfl] at none
          rw [if_pos rfl]
          exact r.string_token_none c cs none

end Reading

theorem tokenize_from_error (r : Reading) (text : List Char) (f : Fault) (failed : tokenizeFrom r text = .error f) :
    ∃ before c cs bytes, text = before ++ c :: cs ∧ tokenizeFrom r before = .ok bytes ∧
      f = ⟨.unrecognizedText, some (before.foldl Place.past r.place)⟩ ∧
        Unreadable (stringAfter r.inString bytes) (c :: cs) := by
  fun_induction tokenizeFrom r text with
  | case1 => cases failed
  | case2 r c cs none =>
      cases failed
      exact ⟨[], c, cs, [], rfl, by rw [tokenizeFrom], rfl, r.read_none c cs none⟩
  | case3 r c cs bytes used found ih =>
      have reads := r.read_reads c cs bytes used found
      cases rest : tokenizeFrom (r.after c bytes used) (cs.drop used) with rw [rest] at failed
      | ok more => cases failed
      | error g =>
          cases failed
          obtain ⟨before, d, ds, more, split, read, rfl, unreadable⟩ := ih rest
          have whole : cs = cs.take used ++ before ++ d :: ds := by
            rw [List.append_assoc, ← split, List.take_append_drop]
          have size : (cs.take used).length = used := List.length_take_of_le reads.within
          refine ⟨c :: (cs.take used ++ before), d, ds, bytes ++ more, by rw [List.cons_append, ← whole], ?_, ?_, ?_⟩
          · have short : r.read? c (cs.take used ++ before) = some (bytes, used) := by
              apply r.read_truncated c _ (d :: ds) bytes used
              · rw [← whole]
                exact found
              · rw [List.length_append, size]
                exact Nat.le_add_right _ _
            rw [tokenize_from_cons r c _ bytes used short, List.drop_left' size, read]
            rfl
          · rw [r.after_place c cs bytes used found, ← List.foldl_append, List.cons_append]
          · rw [r.after_string c cs bytes used found] at unreadable
            rw [Reading.string_after_token _ bytes more (r.read_one_token c cs bytes used found)]
            exact unreadable

theorem unreadable_text_located (text : String) (f : Fault) (failed : tokenize text = .error f) :
    ∃ place bytes, f = ⟨.unrecognizedText, some place⟩ ∧ f.cause.kind = .malformed ∧ place.Within text.toList ∧
      text.toList = textBefore text.toList place ++ textFrom text.toList place ∧
      tokenize (String.ofList (textBefore text.toList place)) = .ok bytes ∧
      Unreadable (stringAfter false bytes) (textFrom text.toList place) := by
  obtain ⟨before, c, cs, bytes, split, read, rfl, unreadable⟩ := tokenize_from_error .start text.toList f failed
  have located := Place.fold_located _ [] before Place.start_located
  have other : c ≠ '\n' := by
    obtain ⟨_, _, same, line, _⟩ := unreadable
    cases same
    exact line
  obtain ⟨within, first, second⟩ := Place.located_cut _ _ c cs located other
  rw [List.nil_append, ← split] at within first second
  refine ⟨_, bytes, rfl, rfl, within, ?_, ?_, ?_⟩
  · rw [first, second, split]
  · rw [first, tokenize, String.toList_ofList]
    exact read
  · rw [second]
    exact unreadable

-- In the second line, inside a string; the carriage return before it is passed over.
theorem dollar_in_string_located :
    tokenize "A\r\n\"b$" = .error ⟨.unrecognizedText, some ⟨2, 3⟩⟩ ∧
      ∃ bytes, tokenize "A\r\n\"b" = .ok bytes ∧ Unreadable (stringAfter false bytes) ['$'] := by
  have reads : Reading.start.read? 'A' ['\r', '\n', '"', 'b', '$'] = some ([0x41], 0) ∧
      (⟨false, some 0x41, ⟨1, 2⟩⟩ : Reading).read? '\r' ['\n', '"', 'b', '$'] = some ([], 0) ∧
      (⟨false, some 0x41, ⟨1, 3⟩⟩ : Reading).read? '\n' ['"', 'b', '$'] = some ([0x3F], 0) ∧
      (⟨false, some 0x3F, ⟨2, 1⟩⟩ : Reading).read? '"' ['b', '$'] = some ([0x2A], 0) ∧
      (⟨true, some 0x2A, ⟨2, 2⟩⟩ : Reading).read? 'b' ['$'] = some ([0xBB, 0xB1], 0) ∧
      (⟨true, some 0xB1, ⟨2, 3⟩⟩ : Reading).read? '$' [] = none := by
    decide +kernel
  obtain ⟨letter, skipped, newline, quote, lowercase, stuck⟩ := reads
  have failed : tokenize "A\r\n\"b$" = .error ⟨.unrecognizedText, some ⟨2, 3⟩⟩ := by
    change tokenizeFrom .start ['A', '\r', '\n', '"', 'b', '$'] = _
    rw [tokenize_from_cons _ _ _ _ _ letter]
    change (tokenizeFrom ⟨false, some 0x41, ⟨1, 2⟩⟩ ['\r', '\n', '"', 'b', '$']).map _ = _
    rw [tokenize_from_cons _ _ _ _ _ skipped]
    change ((tokenizeFrom ⟨false, some 0x41, ⟨1, 3⟩⟩ ['\n', '"', 'b', '$']).map _).map _ = _
    rw [tokenize_from_cons _ _ _ _ _ newline]
    change (((tokenizeFrom ⟨false, some 0x3F, ⟨2, 1⟩⟩ ['"', 'b', '$']).map _).map _).map _ = _
    rw [tokenize_from_cons _ _ _ _ _ quote]
    change ((((tokenizeFrom ⟨true, some 0x2A, ⟨2, 2⟩⟩ ['b', '$']).map _).map _).map _).map _ = _
    rw [tokenize_from_cons _ _ _ _ _ lowercase]
    change (((((tokenizeFrom ⟨true, some 0xB1, ⟨2, 3⟩⟩ ['$']).map _).map _).map _).map _).map _ = _
    rw [tokenizeFrom, stuck]
    rfl
  obtain ⟨place, bytes, same, _, _, _, read, unreadable⟩ := unreadable_text_located _ _ failed
  cases same
  exact ⟨failed, bytes, read, unreadable⟩

end GraphCalc
