import GraphCalc.Session

set_option autoImplicit false

namespace GraphCalc

def Place.below (p : Place) (lines : Nat) : Place := ⟨p.line + lines, p.column⟩

def Fault.below (f : Fault) (lines : Nat) : Fault := { f with place := f.place.map (·.below lines) }

theorem Fault.below_below (f : Fault) (lines more : Nat) : (f.below lines).below more = f.below (lines + more) := by
  obtain ⟨cause, place⟩ := f
  cases place with
  | none => rfl
  | some p =>
      change Fault.mk cause (some ⟨p.line + lines + more, p.column⟩) = ⟨cause, some ⟨p.line + (lines + more), p.column⟩⟩
      rw [Nat.add_assoc]

section MapError

variable {ε ε' α : Type} (change : ε → ε')

theorem map_error_ok (x : α) : (Except.ok x : Except ε α).mapError change = .ok x := rfl

theorem map_error_error (e : ε) : (Except.error e : Except ε α).mapError change = .error (change e) := rfl

end MapError

-- No token of two bytes is cut off at the end.
def Whole (bytes : Bytes) : Prop := ∀ b ∈ bytes.getLast?, Byte.isTwoByte b = false

theorem whole_append (first second : Bytes) (firstWhole : Whole first) (secondWhole : Whole second) :
    Whole (first ++ second) := by
  intro b last
  rw [List.getLast?_append] at last
  cases ending : second.getLast? with rw [ending] at last
  | none => exact firstWhole b last
  | some d =>
      cases last
      exact secondWhole b ending

theorem whole_suffix (part bytes : Bytes) (suffix : part <:+ bytes) (whole : Whole bytes) : Whole part := by
  obtain ⟨before, rfl⟩ := suffix
  intro b last
  apply whole b
  rw [List.getLast?_append, Option.mem_def.mp last]
  rfl

namespace Spelling

theorem text_in_line : ∀ s ∈ all, '\n' ∉ s.text := by decide +kernel

theorem bytes_in_line : ∀ s ∈ all, Byte.newline ∉ s.bytes ∧ ∀ b ∈ s.bytes.getLast?, Byte.isTwoByte b = false := by
  have checked : ∀ s ∈ all, Byte.newline ∉ s.bytes ∧ s.bytes.getLast?.any Byte.isTwoByte = false := by decide +kernel
  intro s member
  obtain ⟨inLine, whole⟩ := checked s member
  refine ⟨inLine, fun b last => ?_⟩
  rw [Option.mem_def.mp last] at whole
  exact whole

theorem prefix_before (stop : Char) (text chars more : List Char) (without : stop ∉ text) :
    text.isPrefixOf (chars ++ stop :: more) = text.isPrefixOf chars := by
  induction text generalizing chars with
  | nil => rfl
  | cons c text ih =>
      obtain ⟨other, inRest⟩ := not_or.mp (mt List.mem_cons.mpr without)
      cases chars with
      | nil => simp [List.isPrefixOf, Ne.symm other]
      | cons d chars => simp [List.isPrefixOf, ih chars inRest]

theorem longest_congr (afterDigit : Bool) (chars others : List Char)
    (same : ∀ s ∈ all, s.text.isPrefixOf chars = s.text.isPrefixOf others) :
    longest? afterDigit chars = longest? afterDigit others := by
  unfold longest?
  congr 1
  apply List.filter_congr
  intro s member
  rw [same s member]

theorem longest_of_line (afterDigit : Bool) (chars more : List Char) :
    longest? afterDigit (chars ++ '\n' :: more) = longest? afterDigit chars :=
  longest_congr afterDigit _ _ fun s member => prefix_before '\n' s.text chars more (text_in_line s member)

theorem longer_chosen (found : Option Spelling) (candidates : List Spelling) (s : Spelling)
    (chosen : candidates.foldl longer found = some s) : found = some s ∨ s ∈ candidates := by
  induction candidates generalizing found with
  | nil => exact Or.inl chosen
  | cons first rest ih =>
      rcases ih _ chosen with step | among
      · unfold longer at step
        split at step
        · split at step
          · exact Or.inr (by simp [Option.some.inj step])
          · exact Or.inl step
        · exact Or.inr (by simp [Option.some.inj step])
      · exact Or.inr (List.mem_cons_of_mem _ among)

theorem longest_found (afterDigit : Bool) (chars : List Char) (s : Spelling)
    (found : longest? afterDigit chars = some s) : s ∈ all ∧ s.text <+: chars := by
  rcases longer_chosen none _ s found with nothing | among
  · cases nothing
  · obtain ⟨member, fits⟩ := List.mem_filter.mp among
    rw [Bool.and_eq_true] at fits
    exact ⟨member, List.isPrefixOf_iff_prefix.mp fits.1⟩

theorem of_text_found (text : List Char) (bytes : Bytes) (found : ofText? text = some bytes) :
    ∃ s ∈ all, s.bytes = bytes := by
  unfold ofText? at found
  obtain ⟨s, chosen, same⟩ := Option.map_eq_some_iff.mp found
  exact ⟨s, List.mem_of_find?_eq_some chosen, same⟩

end Spelling

theorem lowercase_byte_in_line (c : Char) (b : UInt8) (found : lowercaseByte? c = some b) :
    b ≠ Byte.newline ∧ Byte.isTwoByte b = false := by
  have letters : ∀ n : Fin 26, UInt8.ofNat (if n.val < 11 then 0xB0 + n.val else 0xB1 + n.val) ≠ Byte.newline ∧
      Byte.isTwoByte (UInt8.ofNat (if n.val < 11 then 0xB0 + n.val else 0xB1 + n.val)) = false := by
    decide
  unfold lowercaseByte? at found
  split at found
  · rename_i within
    have bound : c.toNat - 'a'.toNat < 26 := by
      have upper : c.toNat ≤ 'z'.toNat := within.2
      have limit : 'z'.toNat - 'a'.toNat < 26 := by decide
      omega
    cases found
    exact letters ⟨_, bound⟩
  · cases found

namespace Reading

-- What is read at a character ends within its line, unless it is the end of the line.
structure Reads (c : Char) (cs : List Char) (bytes : Bytes) (used : Nat) : Prop where
  within : used ≤ cs.length
  inLine : '\n' ∉ cs.take used
  whole : Whole bytes
  newlines : bytes.count Byte.newline = [c].count '\n'

theorem Reads.lines (c : Char) (cs : List Char) (bytes : Bytes) (used : Nat) (reads : Reads c cs bytes used) :
    [c].count '\n' + (cs.drop used).count '\n' = (c :: cs).count '\n' := by
  have split : cs.count '\n' = (cs.drop used).count '\n' := by
    conv => lhs; rw [← List.take_append_drop used cs]
    rw [List.count_append, List.count_eq_zero.mpr reads.inLine, Nat.zero_add]
  rw [← split, ← List.count_append]
  rfl

theorem token_reads (r : Reading) (c : Char) (cs : List Char) (bytes : Bytes) (used : Nat) (other : c ≠ '\n')
    (found : r.token? c cs = some (bytes, used)) : Reads c cs bytes used := by
  unfold token? at found
  obtain ⟨s, chosen, same⟩ := Option.map_eq_some_iff.mp found
  cases same
  obtain ⟨member, rest, fits⟩ := Spelling.longest_found _ _ s chosen
  obtain ⟨noLine, whole⟩ := Spelling.bytes_in_line s member
  have inLine := Spelling.text_in_line s member
  refine ⟨?_, ?_, whole, ?_⟩
  · have lengths := congrArg List.length fits
    simp only [List.length_append, List.length_cons] at lengths
    omega
  · cases text : s.text with
    | nil => simp
    | cons d ds =>
        rw [text] at fits inLine
        cases fits
        simpa using mt (List.mem_cons_of_mem _) inLine
  · rw [List.count_eq_zero.mpr noLine, List.count_eq_zero.mpr (by simpa using Ne.symm other)]

theorem string_token_reads (r : Reading) (c : Char) (cs : List Char) (bytes : Bytes) (used : Nat) (other : c ≠ '\n')
    (found : r.stringToken? c cs = some (bytes, used)) : Reads c cs bytes used := by
  have alone (whole : Whole bytes) (noLine : Byte.newline ∉ bytes) : Reads c cs bytes 0 := by
    refine ⟨Nat.zero_le _, by simp, whole, ?_⟩
    rw [List.count_eq_zero.mpr noLine, List.count_eq_zero.mpr (by simpa using Ne.symm other)]
  unfold stringToken? at found
  cases letter : lowercaseByte? c with rw [letter] at found
  | some b =>
      cases found
      obtain ⟨noLine, single⟩ := lowercase_byte_in_line c b letter
      apply alone
      · simpa [Whole] using single
      · simpa [Ne.symm noLine] using (by decide : Byte.newline ≠ Byte.lowercase)
  | none =>
      dsimp only at found
      split at found
      · cases found
        exact alone (by simp [Whole]; decide) (by decide)
      · split at found
        · exact r.token_reads c cs bytes used other found
        · obtain ⟨bytes', spelled, same⟩ := Option.map_eq_some_iff.mp found
          cases same
          obtain ⟨s, member, rfl⟩ := Spelling.of_text_found [c] bytes spelled
          obtain ⟨noLine, whole⟩ := Spelling.bytes_in_line s member
          exact alone whole noLine

theorem read_reads (r : Reading) (c : Char) (cs : List Char) (bytes : Bytes) (used : Nat)
    (found : r.read? c cs = some (bytes, used)) : Reads c cs bytes used := by
  unfold read? at found
  split at found
  · rename_i line
    cases found
    subst line
    exact ⟨Nat.zero_le _, by simp, by simp [Whole]; decide, rfl⟩
  · rename_i other
    split at found
    · cases found
      exact ⟨Nat.zero_le _, by simp, by simp [Whole], (List.count_eq_zero.mpr (by simpa using Ne.symm other)).symm⟩
    · split at found
      · exact r.string_token_reads c cs bytes used other found
      · exact r.token_reads c cs bytes used other found

theorem read_of_line (r : Reading) (c : Char) (cs more : List Char) :
    r.read? c (cs ++ '\n' :: more) = r.read? c cs := by
  have token : r.token? c (cs ++ '\n' :: more) = r.token? c cs := by
    unfold token?
    rw [← List.cons_append, Spelling.longest_of_line]
  have arrow : (cs ++ '\n' :: more).head? = some '>' ↔ cs.head? = some '>' := by
    cases cs <;> simp
  unfold read? stringToken?
  simp only [token, arrow]

theorem after_line (r : Reading) (c : Char) (bytes : Bytes) (used : Nat) :
    (r.after c bytes used).place.line = r.place.line + [c].count '\n' := by
  unfold after
  by_cases line : c = '\n'
  · subst line
    rfl
  · rw [if_neg line, List.count_eq_zero.mpr (by simpa using Ne.symm line)]
    rfl

-- Two readings that go on alike, the second so many lines further down.
structure Below (r r' : Reading) (lines : Nat) : Prop where
  inString : r'.inString = r.inString
  afterDigit : r'.afterDigit = r.afterDigit
  place : r'.place = r.place.below lines

theorem read_below (r r' : Reading) (lines : Nat) (below : r.Below r' lines) (c : Char) (cs : List Char) :
    r'.read? c cs = r.read? c cs := by
  unfold read? stringToken? token?
  rw [below.inString, below.afterDigit]

theorem after_below (r r' : Reading) (lines : Nat) (below : r.Below r' lines) (c : Char) (bytes : Bytes) (used : Nat) :
    (r.after c bytes used).Below (r'.after c bytes used) lines := by
  unfold after
  split
  · refine ⟨rfl, rfl, ?_⟩
    simp [below.place, Place.below, Nat.add_right_comm]
  · refine ⟨by simp [below.inString], ?_, by simp [below.place, Place.below]⟩
    cases ending : bytes.getLast? with
    | none => simpa [afterDigit, ending] using below.afterDigit
    | some b => simp [afterDigit]

end Reading

theorem tokenize_from_cons (r : Reading) (c : Char) (cs : List Char) (bytes : Bytes) (used : Nat)
    (found : r.read? c cs = some (bytes, used)) :
    tokenizeFrom r (c :: cs) = (tokenizeFrom (r.after c bytes used) (cs.drop used)).map (bytes ++ ·) := by
  rw [tokenizeFrom, found]

theorem tokenize_from_below (r r' : Reading) (lines : Nat) (below : r.Below r' lines) (cs : List Char) :
    tokenizeFrom r' cs = (tokenizeFrom r cs).mapError (·.below lines) := by
  fun_induction tokenizeFrom r cs generalizing r' with
  | case1 => rw [tokenizeFrom]; rfl
  | case2 r c cs unreadable =>
      rw [tokenizeFrom, r.read_below r' lines below, unreadable, below.place]
      rfl
  | case3 r c cs bytes used found ih =>
      rw [tokenize_from_cons r' c cs bytes used ((r.read_below r' lines below c cs).trans found),
        ih _ (r.after_below r' lines below c bytes used)]
      cases tokenizeFrom (r.after c bytes used) (cs.drop used) <;> rfl

theorem tokenize_from_line (r : Reading) (a b : List Char) :
    tokenizeFrom r (a ++ '\n' :: b) = (tokenizeFrom r a).bind fun x =>
      (tokenizeFrom ⟨false, some Byte.newline, ⟨r.place.line + a.count '\n' + 1, 1⟩⟩ b).map (x ++ Byte.newline :: ·) := by
  fun_induction tokenizeFrom r a with
  | case1 r =>
      rw [List.nil_append, tokenizeFrom]
      rfl
  | case2 r c cs unreadable =>
      rw [List.cons_append, tokenizeFrom, r.read_of_line, unreadable]
      rfl
  | case3 r c cs bytes used found ih =>
      have reads := r.read_reads c cs bytes used found
      rw [List.cons_append, tokenize_from_cons r c _ bytes used ((r.read_of_line c cs b).trans found),
        List.drop_append_of_le_length reads.within, ih, r.after_line, Nat.add_assoc r.place.line, reads.lines]
      cases tokenizeFrom (r.after c bytes used) (cs.drop used) with
      | error f => rfl
      | ok x =>
          cases tokenizeFrom ⟨false, some Byte.newline, ⟨r.place.line + (c :: cs).count '\n' + 1, 1⟩⟩ b with
          | error f => rfl
          | ok y => simp [Except.map, Except.bind]

theorem tokenize_from_ok (r : Reading) (a : List Char) (x : Bytes) (done : tokenizeFrom r a = .ok x) :
    Whole x ∧ x.count Byte.newline = a.count '\n' := by
  fun_induction tokenizeFrom r a generalizing x with
  | case1 =>
      cases done
      exact ⟨by simp [Whole], rfl⟩
  | case2 => cases done
  | case3 r c cs bytes used found ih =>
      have reads := r.read_reads c cs bytes used found
      cases rest : tokenizeFrom (r.after c bytes used) (cs.drop used) with rw [rest] at done
      | error f => cases done
      | ok y =>
          cases done
          obtain ⟨restWhole, restNewlines⟩ := ih y rest
          refine ⟨whole_append bytes y reads.whole restWhole, ?_⟩
          rw [List.count_append, reads.newlines, restNewlines, reads.lines]

theorem tokenize_lines (a b : String) :
    tokenize (a ++ "\n" ++ b) = (tokenize a).bind fun x =>
      ((tokenize b).map (x ++ Byte.newline :: ·)).mapError (·.below (a.toList.count '\n' + 1)) := by
  have text : (a ++ "\n" ++ b).toList = a.toList ++ '\n' :: b.toList := by simp
  have below : Reading.start.Below ⟨false, some Byte.newline, ⟨1 + a.toList.count '\n' + 1, 1⟩⟩
      (a.toList.count '\n' + 1) := ⟨rfl, rfl, by simp [Reading.start, Place.below, Nat.add_assoc]⟩
  unfold tokenize
  rw [text, tokenize_from_line]
  dsimp only [Reading.start] at below ⊢
  rw [tokenize_from_below _ _ _ below b.toList]
  cases tokenizeFrom ⟨false, none, ⟨1, 1⟩⟩ b.toList <;> rfl

end GraphCalc
