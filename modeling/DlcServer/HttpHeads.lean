/-
What mongoose reads of the head of a message.

A head ends in a newline, and that newline ends whatever is read without looking
at the end of the head.  So parsing stays inside the head, and whatever comes
behind a head makes no difference to what is found in it.
-/

import DlcServer.HttpMessage

namespace DlcServer

open Library

/-! ### Where a head ends -/

/-- Bytes that `mg_http_get_request_len` does not stop at. -/
def HeadByte (byte : UInt8) : Prop :=
  isPrint byte = true ∨ byte = 13 ∨ byte = 10 ∨ 128 ≤ byte

private theorem headByte_iff (byte : UInt8) :
    HeadByte byte ↔ ¬(¬isPrint byte = true ∧ byte ≠ 13 ∧ byte ≠ 10 ∧ byte < 128) := by
  unfold HeadByte
  constructor
  · rintro (print | rfl | rfl | high) ⟨noPrint, notReturn, notNewline, low⟩
    · exact noPrint print
    · exact notReturn rfl
    · exact notNewline rfl
    · exact absurd low (UInt8.not_lt.mpr high)
  · intro notBad
    by_contra other
    rw [not_or, not_or, not_or] at other
    exact notBad ⟨other.1, other.2.1, other.2.2.1, UInt8.not_le.mp other.2.2.2⟩

/-- Every byte up to the end of the head, which is two newlines or has a return
between them. -/
inductive EndsHead : CText → CText → Prop
  | newlines (rest : CText) : EndsHead [10, 10] rest
  | withReturn (rest : CText) : EndsHead [10, 13, 10] rest
  | step {byte : UInt8} {head rest : CText} (isHead : HeadByte byte)
      (goesOn : ¬(byte = 10 ∧ ([10].isPrefixOf (head ++ rest) = true ∨
        [13, 10].isPrefixOf (head ++ rest) = true)))
      (ends : EndsHead head rest) : EndsHead (byte :: head) rest

section RequestLen

private theorem requestLenFrom_cons (i : Nat) {byte : UInt8} {behind : CText} (isHead : HeadByte byte)
    (goesOn : ¬(byte = 10 ∧ ([10].isPrefixOf behind = true ∨
      [13, 10].isPrefixOf behind = true))) :
    requestLenFrom i (byte :: behind) = requestLenFrom (i + 1) behind := by
  have notOne : ¬(byte = 10 ∧ [10].isPrefixOf behind = true) :=
    fun both => goesOn ⟨both.1, .inl both.2⟩
  have notTwo : ¬(byte = 10 ∧ [13, 10].isPrefixOf behind = true) :=
    fun both => goesOn ⟨both.1, .inr both.2⟩
  rw [requestLenFrom, if_neg ((headByte_iff byte).mp isHead), if_neg notOne, if_neg notTwo]

private theorem EndsHead.requestLen {head rest : CText} (ends : EndsHead head rest) (i : Nat) :
    requestLenFrom i (head ++ rest) = i + head.length := by
  induction ends generalizing i with
  | newlines rest => rfl
  | withReturn rest => rfl
  | @step byte head rest isHead goesOn ends ih =>
      rw [List.cons_append, requestLenFrom_cons i isHead goesOn, ih, List.length_cons]
      push_cast
      omega

/-- What is behind a head makes no difference to where it ends. -/
theorem EndsHead.behind {head rest : CText} (ends : EndsHead head rest) (other : CText) :
    EndsHead head other := by
  induction ends with
  | newlines => exact .newlines other
  | withReturn => exact .withReturn other
  | @step byte head rest isHead goesOn ends ih =>
      refine .step isHead (fun both => goesOn ⟨both.1, ?_⟩) ih
      cases ends with
      | newlines => exact both.2
      | withReturn => exact both.2
      | @step next more _ _ _ endsMore =>
          cases endsMore with
          | newlines => exact both.2
          | withReturn => exact both.2
          | step => exact both.2

private theorem requestLenFrom_cases (i : Nat) (buf : CText) :
    requestLenFrom i buf = 0 ∨ requestLenFrom i buf = -1 ∨
      ∃ head rest, buf = head ++ rest ∧ EndsHead head rest := by
  induction buf generalizing i with
  | nil => exact .inl rfl
  | cons byte behind ih =>
      by_cases isHead : HeadByte byte
      · by_cases ends : byte = 10 ∧ ([10].isPrefixOf behind = true ∨
            [13, 10].isPrefixOf behind = true)
        · obtain ⟨rfl, newline | both⟩ := ends
          · obtain ⟨rest, rfl⟩ := List.isPrefixOf_iff_prefix.mp newline
            exact .inr (.inr ⟨[10, 10], rest, rfl, .newlines rest⟩)
          · obtain ⟨rest, rfl⟩ := List.isPrefixOf_iff_prefix.mp both
            exact .inr (.inr ⟨[10, 13, 10], rest, rfl, .withReturn rest⟩)
        · rw [requestLenFrom_cons i isHead ends]
          rcases ih (i + 1) with none_ | bad | ⟨head, rest, rfl, endsHead⟩
          · exact .inl none_
          · exact .inr (.inl bad)
          · exact .inr (.inr ⟨byte :: head, rest, rfl, .step isHead ends endsHead⟩)
      · refine .inr (.inl ?_)
        rw [requestLenFrom, if_pos (not_not.mp fun good => isHead ((headByte_iff byte).mpr good))]

private theorem lookahead_append {i : Nat} {behind : CText} (decided : requestLenFrom i behind ≠ 0)
    (more : CText) :
    [10].isPrefixOf (behind ++ more) = [10].isPrefixOf behind ∧
      [13, 10].isPrefixOf (behind ++ more) = [13, 10].isPrefixOf behind := by
  match behind with
  | [] => exact absurd rfl decided
  | [byte] =>
      refine ⟨rfl, ?_⟩
      by_cases isReturn : byte = 13
      · subst isReturn
        exact absurd rfl decided
      · have differs : (13 == byte) = false := beq_false_of_ne (Ne.symm isReturn)
        simp [List.isPrefixOf, differs]
  | _ :: _ :: _ => exact ⟨rfl, rfl⟩

private theorem requestLenFrom_append {i : Nat} {buf : CText} (decided : requestLenFrom i buf ≠ 0)
    (more : CText) : requestLenFrom i (buf ++ more) = requestLenFrom i buf := by
  induction buf generalizing i with
  | nil => exact absurd rfl decided
  | cons byte behind ih =>
      rw [List.cons_append, requestLenFrom, requestLenFrom]
      by_cases later : requestLenFrom (i + 1) behind = 0
      · by_cases isBad : ¬isPrint byte = true ∧ byte ≠ 13 ∧ byte ≠ 10 ∧ byte < 128
        · rw [if_pos isBad, if_pos isBad]
        · rw [if_neg isBad, if_neg isBad]
          rw [requestLenFrom, if_neg isBad, later] at decided
          by_cases newline : byte = 10 ∧ [10].isPrefixOf behind = true
          · obtain ⟨rest, rfl⟩ := List.isPrefixOf_iff_prefix.mp newline.2
            rw [if_pos newline, if_pos ⟨newline.1, rfl⟩]
          · rw [if_neg newline] at decided ⊢
            by_cases both : byte = 10 ∧ [13, 10].isPrefixOf behind = true
            · obtain ⟨rfl, starts⟩ := both
              obtain ⟨rest, rfl⟩ := List.isPrefixOf_iff_prefix.mp starts
              rfl
            · rw [if_neg both] at decided
              exact absurd rfl decided
      · obtain ⟨one, two⟩ := lookahead_append later more
        rw [one, two, ih later]

/-- A head ends in a newline and has no bytes that may not be in a head. -/
theorem EndsHead.bytes {head rest : CText} (ends : EndsHead head rest) :
    (∃ front, head = front ++ [10]) ∧ 2 ≤ head.length ∧ ∀ byte ∈ head, HeadByte byte := by
  induction ends with
  | newlines =>
      refine ⟨⟨[10], rfl⟩, le_refl 2, ?_⟩
      intro byte member
      rcases List.mem_cons.mp member with rfl | member
      · exact .inr (.inr (.inl rfl))
      · rw [List.mem_singleton.mp member]
        exact .inr (.inr (.inl rfl))
  | withReturn =>
      refine ⟨⟨[10, 13], rfl⟩, by decide, ?_⟩
      intro byte member
      simp only [List.mem_cons, List.not_mem_nil, or_false] at member
      rcases member with rfl | rfl | rfl
      · exact .inr (.inr (.inl rfl))
      · exact .inr (.inl rfl)
      · exact .inr (.inr (.inl rfl))
  | step isHead goesOn ends ih =>
      obtain ⟨⟨front, rfl⟩, long, each⟩ := ih
      exact ⟨⟨_ :: front, rfl⟩, Nat.le_succ_of_le long, List.forall_mem_cons.mpr ⟨isHead, each⟩⟩

end RequestLen

/-! ### Scanning -/

theorem takeWhile_stops {α : Type} (p : α → Bool) (input : List α) :
    (∀ i < (input.takeWhile p).length, ∃ item, input[i]? = some item ∧ p item = true) ∧
      ((input.takeWhile p).length < input.length →
        ∃ item, input[(input.takeWhile p).length]? = some item ∧ p item = false) := by
  induction input with
  | nil =>
      exact ⟨fun i inside => absurd inside (Nat.not_lt_zero i), fun less => absurd less (Nat.lt_irrefl 0)⟩
  | cons first rest ih =>
      by_cases holds : p first = true
      · rw [List.takeWhile_cons_of_pos holds, List.length_cons]
        constructor
        · intro i inside
          cases i with
          | zero => exact ⟨first, rfl, holds⟩
          | succ i =>
              rw [List.getElem?_cons_succ]
              exact ih.1 i (Nat.lt_of_succ_lt_succ inside)
        · intro less
          rw [List.getElem?_cons_succ]
          exact ih.2 (Nat.lt_of_succ_lt_succ less)
      · rw [List.takeWhile_cons_of_neg holds]
        exact ⟨fun i inside => absurd inside (Nat.not_lt_zero i),
          fun _ => ⟨first, rfl, Bool.not_eq_true _ ▸ holds⟩⟩

/-- What `mg_skip` finds from `s` on, and where it gets. -/
structure Skips (buf : CText) (s last : Nat) (delims : CText) (next : Nat) (v : MgStr) : Prop where
  start : v.p = s
  forward : s + v.len ≤ next
  within : next ≤ last
  token : ∀ i < v.len, ∃ byte, buf[s + i]? = some byte ∧ isDelim delims byte = false
  stop : s + v.len < last →
    ∃ byte, buf[s + v.len]? = some byte ∧ isDelim delims byte = true ∧ s + v.len < next
  rest : next < last → ∃ byte, buf[next]? = some byte ∧ isDelim delims byte = false

private theorem mgSkip_skips {buf : CText} {s last : Nat} (delims : CText) (inside : s ≤ last)
    (lastInside : last ≤ buf.length) :
    Skips buf s last delims (mgSkip buf s last delims).1 (mgSkip buf s last delims).2 := by
  have there (start i : Nat) (below : start + i < last) :
      ((buf.take last).drop start)[i]? = buf[start + i]? := by
    rw [List.getElem?_drop, List.getElem?_take_of_lt below]
  have long (start : Nat) : ((buf.take last).drop start).length = last - start := by
    rw [List.length_drop, List.length_take, Nat.min_eq_left lastInside]
  have tokenLong := (List.takeWhile_prefix (l := (buf.take last).drop s)
    (fun byte => !isDelim delims byte)).length_le
  obtain ⟨tokenEach, tokenStops⟩ := takeWhile_stops (fun byte => !isDelim delims byte)
    ((buf.take last).drop s)
  unfold mgSkip
  dsimp only
  generalize (((buf.take last).drop s).takeWhile (fun byte => !isDelim delims byte)).length =
    found at tokenLong tokenEach tokenStops ⊢
  rw [long] at tokenLong tokenStops
  have skippedLong := (List.takeWhile_prefix (l := (buf.take last).drop (s + found))
    (isDelim delims)).length_le
  have skippedStops := (takeWhile_stops (isDelim delims) ((buf.take last).drop (s + found))).2
  rw [long] at skippedLong skippedStops
  refine ⟨rfl, Nat.le_add_right _ _, by omega, ?_, ?_, ?_⟩
  · intro i below
    dsimp only at below
    obtain ⟨byte, isByte, noDelim⟩ := tokenEach i below
    rw [there s i (by omega)] at isByte
    exact ⟨byte, isByte, by simpa using noDelim⟩
  · intro goesOn
    obtain ⟨byte, isByte, delim⟩ := tokenStops (by dsimp only at goesOn; omega)
    rw [there s found goesOn] at isByte
    have isDelim_ : isDelim delims byte = true := by simpa using delim
    refine ⟨byte, isByte, isDelim_, ?_⟩
    have starts : (buf.take last).drop (s + found) =
        byte :: (buf.take last).drop (s + found + 1) := by
      have index : ((buf.take last).drop (s + found))[0]? = some byte := by
        rw [there (s + found) 0 goesOn]
        exact isByte
      rw [← List.head?_eq_getElem?] at index
      obtain ⟨tail, split⟩ := List.head?_eq_some_iff.mp index
      rw [split, ← List.tail_drop, split]
      rfl
    rw [starts, List.takeWhile_cons_of_pos isDelim_, List.length_cons]
    dsimp only
    omega
  · intro less
    obtain ⟨byte, isByte, noDelim⟩ := skippedStops (by omega)
    rw [there (s + found) _ less] at isByte
    exact ⟨byte, isByte, noDelim⟩

private theorem mgSkip_append {buf : CText} {s last : Nat} (delims : CText) (lastInside : last ≤ buf.length)
    (more : CText) : mgSkip (buf ++ more) s last delims = mgSkip buf s last delims := by
  unfold mgSkip
  rw [List.take_append_of_le_length lastInside]

/-! ### Reads that do not look at the end -/

theorem peek_of_getElem {buf : CText} {i : Nat} {byte : UInt8} (isByte : buf[i]? = some byte) :
    peek buf i = .ok byte := by
  unfold peek
  rw [isByte]

theorem strUtilLowercase_eq_zero {byte : UInt8} (zero : strUtilLowercase byte = 0) : byte = 0 := by
  unfold strUtilLowercase CJson.tolower at zero
  have small := byte.toNat_lt
  split at zero
  · next range =>
      have top := UInt8.le_iff_toNat_le.mp range.2
      have least := UInt8.le_iff_toNat_le.mp range.1
      simp only [UInt8.reduceToNat] at top least
      have apart : (32 : UInt8).toNat = 32 := rfl
      rw [UInt8.toNat_add, apart] at zero
      omega
  · exact UInt8.toNat_inj.mp (by simpa using zero)

private theorem mgNcasecmp_stops {buf : CText} {len s1 stop : Nat} {s2 : CText} {byte : UInt8}
    (isByte : buf[stop]? = some byte) (before : s1 ≤ stop)
    (differs : ∀ other ∈ s2, strUtilLowercase byte ≠ strUtilLowercase other) :
    ∃ diff, mgNcasecmp buf len s1 s2 = .ok diff := by
  induction len generalizing s1 s2 with
  | zero => exact ⟨0, rfl⟩
  | succ len ih =>
      have inside : s1 < buf.length :=
        lt_of_le_of_lt before (List.getElem?_eq_some_iff.mp isByte).1
      have first : peek buf s1 = .ok buf[s1] := peek_of_getElem (List.getElem?_eq_getElem inside)
      obtain ⟨second, isSecond⟩ : ∃ second, peek (s2 ++ [0]) 0 = .ok second := by
        cases s2 with
        | nil => exact ⟨0, rfl⟩
        | cons head _ => exact ⟨head, rfl⟩
      rw [mgNcasecmp, first, overstep_bind_ok, isSecond, overstep_bind_ok]
      dsimp only
      by_cases goesOn : strUtilLowercase buf[s1] - strUtilLowercase second = 0 ∧ buf[s1] ≠ 0
      · rw [if_pos goesOn]
        rcases Nat.lt_or_eq_of_le before with less | rfl
        · exact ih less (fun other member => differs other (List.mem_of_mem_drop member))
        · exfalso
          have same : buf[s1] = byte := (List.getElem?_eq_some_iff.mp isByte).2
          rw [same] at goesOn
          cases s2 with
          | nil =>
              cases isSecond
              exact goesOn.2 (strUtilLowercase_eq_zero (by
                have zero : strUtilLowercase 0 = 0 := rfl
                rw [zero] at goesOn
                omega))
          | cons head more =>
              cases isSecond
              exact differs _ List.mem_cons_self (by omega)
      · rw [if_neg goesOn]
        exact ⟨_, rfl⟩

/-- A comparison of bytes that are all in the buffer. -/
theorem mgNcasecmp_inside {buf : CText} {len s1 : Nat} (s2 : CText) (inside : s1 + len ≤ buf.length) :
    ∃ diff, mgNcasecmp buf len s1 s2 = .ok diff := by
  induction len generalizing s1 s2 with
  | zero => exact ⟨0, rfl⟩
  | succ len ih =>
      have below : s1 < buf.length := by omega
      have first : peek buf s1 = .ok buf[s1] := peek_of_getElem (List.getElem?_eq_getElem below)
      obtain ⟨second, isSecond⟩ : ∃ second, peek (s2 ++ [0]) 0 = .ok second := by
        cases s2 with
        | nil => exact ⟨0, rfl⟩
        | cons head _ => exact ⟨head, rfl⟩
      rw [mgNcasecmp, first, overstep_bind_ok, isSecond, overstep_bind_ok]
      dsimp only
      split
      · exact ih _ (by omega)
      · exact ⟨_, rfl⟩

private theorem peek_append {buf : CText} {i : Nat} {byte : UInt8} (read : peek buf i = .ok byte)
    (more : CText) : peek (buf ++ more) i = .ok byte := by
  unfold peek at read ⊢
  cases isByte : buf[i]? with
  | none =>
      rw [isByte] at read
      contradiction
  | some found =>
      rw [isByte] at read
      cases read
      have inside := (List.getElem?_eq_some_iff.mp isByte).1
      rw [List.getElem?_append_left inside, isByte]

theorem overstep_bind_eq_ok {α β : Type} {first : Except Overstep α}
    {next : α → Except Overstep β} {result : β} (done : first >>= next = .ok result) :
    ∃ value, first = .ok value ∧ next value = .ok result := by
  cases first with
  | error overstep => contradiction
  | ok value => exact ⟨value, rfl, done⟩

theorem mgNcasecmp_append {buf : CText} {len s1 : Nat} {s2 : CText} {diff : Int}
    (done : mgNcasecmp buf len s1 s2 = .ok diff) (more : CText) :
    mgNcasecmp (buf ++ more) len s1 s2 = .ok diff := by
  induction len generalizing s1 s2 with
  | zero => exact done
  | succ len ih =>
      rw [mgNcasecmp] at done ⊢
      obtain ⟨first, isFirst, done⟩ := overstep_bind_eq_ok done
      obtain ⟨second, isSecond, done⟩ := overstep_bind_eq_ok done
      rw [peek_append isFirst more, overstep_bind_ok, isSecond, overstep_bind_ok]
      dsimp only at done ⊢
      split at done
      · next goesOn =>
          rw [if_pos goesOn]
          exact ih done
      · next stops =>
          rw [if_neg stops]
          exact done

private theorem strtoll_stops {buf : CText} {s stop : Nat} {first last : UInt8}
    (isFirst : buf[s]? = some first) (solid : isSpace first = false)
    (isLast : buf[stop]? = some last) (noDigit : Json.isDigit last = false) (before : s < stop) :
    ∃ value, strtoll buf s = .ok value := by
  have noBlanks : (buf.drop s).takeWhile isSpace = [] := by
    have head : (buf.drop s).head? = some first := by rw [List.head?_drop, isFirst]
    obtain ⟨tail, split⟩ := List.head?_eq_some_iff.mp head
    rw [split, List.takeWhile_cons_of_neg (by rw [solid]; decide)]
  have inside := (List.getElem?_eq_some_iff.mp isLast).1
  unfold strtoll
  rw [noBlanks]
  simp only [List.length_nil, Nat.add_zero]
  generalize isSign : (if (buf[s]? == some Json.minus) = true ∨ buf[s]? = some 43
    then 1 else 0) = sign
  have signLe : sign ≤ 1 := by
    rw [← isSign]
    split <;> omega
  have short : ((buf.drop (s + sign)).takeWhile Json.isDigit).length ≤ stop - (s + sign) := by
    by_contra long
    obtain ⟨byte, isByte, digit⟩ := (takeWhile_stops Json.isDigit (buf.drop (s + sign))).1
      (stop - (s + sign)) (by omega)
    have index : s + sign + (stop - (s + sign)) = stop := by omega
    rw [List.getElem?_drop, index, isLast] at isByte
    cases isByte
    rw [noDigit] at digit
    contradiction
  rw [if_pos (by omega)]
  exact ⟨_, rfl⟩

private theorem takeWhile_drop_append {p : UInt8 → Bool} {buf : CText} {s : Nat}
    (stops : s + ((buf.drop s).takeWhile p).length < buf.length) (more : CText) :
    ((buf ++ more).drop s).takeWhile p = (buf.drop s).takeWhile p := by
  rw [List.drop_append_of_le_length (by omega), List.takeWhile_append, if_neg]
  rw [List.length_drop]
  omega

private theorem strtoll_append {buf : CText} {s : Nat} {value : Int} (done : strtoll buf s = .ok value)
    (more : CText) : strtoll (buf ++ more) s = .ok value := by
  unfold strtoll at done
  dsimp only at done
  generalize isStart : s + ((buf.drop s).takeWhile isSpace).length = start at done
  generalize isSign : (if (buf[start]? == some Json.minus) = true ∨ buf[start]? = some 43
    then 1 else 0) = sign at done
  split at done
  · next inside =>
      have blanks : s + ((buf.drop s).takeWhile isSpace).length < buf.length := by omega
      have startInside : start < buf.length := by omega
      unfold strtoll
      dsimp only
      rw [takeWhile_drop_append blanks, isStart, List.getElem?_append_left startInside, isSign,
        takeWhile_drop_append inside, if_pos (by rw [List.length_append]; omega)]
      exact done
  · contradiction

/-! ### Headers -/

/-- The bytes of the buffer up to `last` are a head. -/
structure HeadAt (buf : CText) (last : Nat) : Prop where
  inside : last ≤ buf.length
  long : 2 ≤ last
  ended : buf[last - 1]? = some 10
  each : ∀ i < last, ∃ byte, buf[i]? = some byte ∧ HeadByte byte

theorem EndsHead.headAt {head rest : CText} (ends : EndsHead head rest) :
    HeadAt (head ++ rest) head.length := by
  obtain ⟨⟨front, rfl⟩, long, each⟩ := ends.bytes
  refine ⟨by simp only [List.length_append]; omega, long, ?_, ?_⟩
  · rw [List.length_append, List.length_singleton, Nat.add_sub_cancel, List.append_assoc,
      List.getElem?_append_right (le_refl _), Nat.sub_self]
    rfl
  · intro i below
    rw [List.getElem?_append_left below, List.getElem?_eq_getElem below]
    exact ⟨_, rfl, each _ (List.getElem_mem below)⟩

/-- What `mg_parse_http` has put together so far lies in the head. -/
structure WithinHead (last : Nat) (hm : HttpMessage) : Prop where
  message : hm.message.p = 0
  body : hm.body.p = last
  lengths : hm.message.len = sizeMax ∧ hm.body.len = sizeMax ∨
    hm.message.len = sizeT (last + hm.body.len) ∨ hm.message.len = last ∧ hm.body.len = 0
  line : ∀ str ∈ [hm.method, hm.uri, hm.proto, hm.respStatusMsg, hm.queryString],
    str.p + str.len ≤ last
  headers : ∀ header ∈ hm.headers, 0 < header.1.len ∧ 0 < header.2.len ∧
    header.1.p + header.1.len ≤ last ∧ header.2.p + header.2.len ≤ last
  few : hm.headers.length < maxHttpHeaders

private theorem trimmed_len_le (buf : CText) (v : MgStr) : (trimmed buf v).len ≤ v.len := by
  unfold trimmed MgStr.bytes
  dsimp only
  exact (List.rdropWhile_prefix _ _).length_le.trans (List.length_take_le _ _)

private theorem bytes_append {buf : CText} {str : MgStr} (inside : str.p + str.len ≤ buf.length)
    (more : CText) : str.bytes (buf ++ more) = str.bytes buf := by
  unfold MgStr.bytes
  rw [List.drop_append_of_le_length (by omega), List.take_append_of_le_length]
  rw [List.length_drop]
  omega

section Headers

variable {buf : CText} {last : Nat}

/-- One round of the loop over the headers, from `s` on. -/
structure Header (buf : CText) (s last afterName next : Nat) (k value : MgStr) : Prop where
  name : Skips buf s last (text ": ") afterName k
  value : Skips buf afterName last [13, 10] next value

private theorem header_round {s : Nat} (head : HeadAt buf last) (inside : s ≤ last) :
    Header buf s last (mgSkip buf s last (text ": ")).1
      (mgSkip buf (mgSkip buf s last (text ": ")).1 last [13, 10]).1
      (mgSkip buf s last (text ": ")).2
      (mgSkip buf (mgSkip buf s last (text ": ")).1 last [13, 10]).2 := by
  have name := mgSkip_skips (text ": ") inside head.inside
  exact ⟨name, mgSkip_skips [13, 10] name.within head.inside⟩

private theorem Header.value_stops {s afterName next : Nat} {k value : MgStr} (head : HeadAt buf last)
    (header : Header buf s last afterName next k value) (some_ : 0 < value.len) :
    afterName + value.len < last := by
  have within := header.value.within
  have forward := header.value.forward
  rcases Nat.lt_or_ge (afterName + value.len) last with less | full
  · exact less
  · obtain ⟨byte, isByte, noDelim⟩ := header.value.token (value.len - 1) (by omega)
    have index : afterName + (value.len - 1) = last - 1 := by omega
    rw [index, head.ended] at isByte
    cases isByte
    contradiction

private theorem Header.contentLength_ok {s afterName next : Nat} {k value : MgStr}
    (head : HeadAt buf last) (header : Header buf s last afterName next k value)
    (some_ : 0 < value.len) (len : Nat) (hm : HttpMessage) :
    ∃ after, contentLength buf len k (trimmed buf value) hm = .ok after ∧
      (after = hm ∨ ∃ bodyLen : Nat, after = { hm with
        body := { hm.body with len := bodyLen }
        message := { hm.message with len := sizeT (len + bodyLen) } }) := by
  have stops := header.value_stops head some_
  have nameForward := header.name.forward
  obtain ⟨delim, isDelim_, delims, _⟩ := header.name.stop (by omega)
  obtain ⟨diff, compared⟩ : ∃ diff, mgNcasecmp buf 14 k.p (text "Content-Length") = .ok diff := by
    rw [header.name.start]
    refine mgNcasecmp_stops isDelim_ (Nat.le_add_right _ _) ?_
    simp only [isDelim, Bool.or_eq_true, beq_iff_eq, decide_eq_true_eq] at delims
    rcases delims with rfl | colon
    · decide +kernel
    · have cases_ : delim = 58 ∨ delim = 32 := by simpa [text] using colon
      rcases cases_ with rfl | rfl <;> decide +kernel
  obtain ⟨number, converted⟩ : ∃ number, strtoll buf (trimmed buf value).p = .ok number := by
    obtain ⟨first, isFirst, notReturn⟩ := header.value.token 0 some_
    obtain ⟨same, isSame, notColon⟩ := header.name.rest (by omega)
    rw [Nat.add_zero, isSame] at isFirst
    cases isFirst
    obtain ⟨byte, isByte, isHead⟩ := head.each afterName (by omega)
    rw [isSame] at isByte
    cases isByte
    obtain ⟨ending, isEnding, ends, _⟩ := header.value.stop stops
    have solid : isSpace first = false := by
      have notBlank : first ≠ 32 := by
        rintro rfl
        contradiction
      have notNewline : first ≠ 10 ∧ first ≠ 13 := by
        constructor <;>
        · rintro rfl
          contradiction
      have wide := first.toNat_lt
      simp only [isSpace, Bool.or_eq_false_iff, Bool.and_eq_false_iff, beq_eq_false_iff_ne,
        decide_eq_false_iff_not, UInt8.not_le]
      refine ⟨notBlank, ?_⟩
      rcases isHead with print | rfl | rfl | high
      · simp only [isPrint, Bool.and_eq_true, decide_eq_true_eq] at print
        exact .inr (UInt8.lt_of_lt_of_le (by decide) print.1)
      · exact absurd rfl notNewline.2
      · exact absurd rfl notNewline.1
      · exact .inr (UInt8.lt_of_lt_of_le (by decide) high)
    have noDigit : Json.isDigit ending = false := by
      simp only [isDelim, Bool.or_eq_true, beq_iff_eq, decide_eq_true_eq, List.mem_cons,
        List.not_mem_nil, or_false] at ends
      rcases ends with rfl | rfl | rfl <;> rfl
    have start : (trimmed buf value).p = afterName := header.value.start
    rw [start]
    exact strtoll_stops isSame solid isEnding noDigit (by omega)
  unfold contentLength
  rw [compared, overstep_bind_ok, converted]
  split
  · exact ⟨_, rfl, .inr ⟨_, rfl⟩⟩
  · exact ⟨_, rfl, .inl rfl⟩

private theorem mgHttpParseHeaders_within (head : HeadAt buf last) {fuel s : Nat} {hm : HttpMessage}
    (inside : s ≤ last) (enough : last - s < fuel) (within : WithinHead last hm) :
    ∃ after, mgHttpParseHeaders buf last last fuel s hm = .ok after ∧ WithinHead last after := by
  induction fuel generalizing s hm with
  | zero => contradiction
  | succ fuel ih =>
      have header := header_round head inside
      unfold mgHttpParseHeaders
      generalize mgSkip buf s last (text ": ") = name at header ⊢
      obtain ⟨afterName, k⟩ := name
      dsimp only at header ⊢
      generalize mgSkip buf afterName last [13, 10] = found at header ⊢
      obtain ⟨next, value⟩ := found
      dsimp only at header ⊢
      have short := trimmed_len_le buf value
      have nameForward := header.name.forward
      have valueForward := header.value.forward
      have valueWithin := header.value.within
      split
      · next room =>
          split
          · next valueless => exact ih valueWithin (by omega) within
          · next goesOn =>
              split
              · exact ⟨hm, rfl, within⟩
              · next both =>
                  rw [not_or] at both
                  have some_ : 0 < value.len := by omega
                  obtain ⟨after, done, same⟩ := header.contentLength_ok head some_ last hm
                  rw [done, overstep_bind_ok]
                  refine ih valueWithin (by omega) ?_
                  have each : ∀ each ∈ hm.headers ++ [(k, trimmed buf value)],
                      0 < each.1.len ∧ 0 < each.2.len ∧ each.1.p + each.1.len ≤ last ∧
                        each.2.p + each.2.len ≤ last := by
                    rw [List.forall_mem_append, List.forall_mem_singleton]
                    have keyStart := header.name.start
                    have valueStart : (trimmed buf value).p = afterName := header.value.start
                    refine ⟨within.headers, ?_⟩
                    dsimp only
                    omega
                  have few : (hm.headers ++ [(k, trimmed buf value)]).length < maxHttpHeaders := by
                    rw [List.length_append, List.length_singleton]
                    omega
                  rcases same with rfl | ⟨bodyLen, rfl⟩
                  · exact ⟨within.message, within.body, within.lengths, within.line, each, few⟩
                  · exact ⟨within.message, within.body, .inr (.inl rfl), within.line, each, few⟩
      · exact ⟨hm, rfl, within⟩

private theorem contentLength_append {len : Nat} {k v : MgStr} {hm after : HttpMessage}
    (done : contentLength buf len k v hm = .ok after) (more : CText) :
    contentLength (buf ++ more) len k v hm = .ok after := by
  unfold contentLength at done ⊢
  obtain ⟨diff, compared, done⟩ := overstep_bind_eq_ok done
  rw [mgNcasecmp_append compared more, overstep_bind_ok]
  split at done
  · next isLength =>
      obtain ⟨value, converted, done⟩ := overstep_bind_eq_ok done
      rw [if_pos isLength, strtoll_append converted more]
      exact done
  · next other =>
      rw [if_neg other]
      exact done

private theorem mgHttpParseHeaders_append (lastInside : last ≤ buf.length) {len fuel s : Nat}
    {hm after : HttpMessage} (inside : s ≤ last)
    (done : mgHttpParseHeaders buf last len fuel s hm = .ok after) (more : CText) :
    mgHttpParseHeaders (buf ++ more) last len fuel s hm = .ok after := by
  induction fuel generalizing s hm with
  | zero => contradiction
  | succ fuel ih =>
      have name := mgSkip_skips (text ": ") inside lastInside
      have found := mgSkip_skips [13, 10] name.within lastInside
      have valueInside := found.forward.trans (found.within.trans lastInside)
      unfold mgHttpParseHeaders at done ⊢
      rw [mgSkip_append _ lastInside]
      generalize mgSkip buf s last (text ": ") = nameFound at name found valueInside done ⊢
      obtain ⟨afterName, k⟩ := nameFound
      dsimp only at done found valueInside ⊢
      rw [mgSkip_append _ lastInside]
      generalize mgSkip buf afterName last [13, 10] = valueFound at found valueInside done ⊢
      obtain ⟨next, value⟩ := valueFound
      dsimp only at done found valueInside ⊢
      have trimmedSame : trimmed (buf ++ more) value = trimmed buf value := by
        unfold trimmed
        rw [bytes_append (by rw [found.start]; exact valueInside)]
      rw [trimmedSame]
      split at done
      · next room =>
          rw [if_pos room]
          split at done
          · next valueless =>
              rw [if_pos valueless]
              exact ih found.within done
          · next goesOn =>
              rw [if_neg goesOn]
              split at done
              · next none_ =>
                  rw [if_pos none_]
                  exact done
              · next both =>
                  rw [if_neg both]
                  obtain ⟨hm, counted, done⟩ := overstep_bind_eq_ok done
                  rw [contentLength_append counted more, overstep_bind_ok]
                  exact ih found.within done
      · next full =>
          rw [if_neg full]
          exact done

end Headers

/-! ### The first line -/

section Line

variable {buf : CText} {s last : Nat} {hm : HttpMessage}

private theorem requestLine_within (inside : s ≤ last) (lastInside : last ≤ buf.length)
    (within : WithinHead last hm) {next : Nat} {after : HttpMessage}
    (done : requestLine buf s last hm = some (next, after)) :
    next ≤ last ∧ WithinHead last after := by
  have method := mgSkip_skips [32] inside lastInside
  have uri := mgSkip_skips [32] method.within lastInside
  have proto := mgSkip_skips [13, 10] uri.within lastInside
  unfold requestLine at done
  generalize mgSkip buf s last [32] = methodFound at method uri proto done
  obtain ⟨afterMethod, methodStr⟩ := methodFound
  dsimp only at method uri proto done
  generalize mgSkip buf afterMethod last [32] = uriFound at uri proto done
  obtain ⟨afterUri, uriStr⟩ := uriFound
  dsimp only at uri proto done
  generalize mgSkip buf afterUri last [13, 10] = protoFound at proto done
  obtain ⟨afterProto, protoStr⟩ := protoFound
  dsimp only at proto done
  have line := within.line
  simp only [List.forall_mem_cons] at line
  obtain ⟨_, _, _, status, query, _⟩ := line
  have bounds := method.start
  have uriStart := uri.start
  have protoStart := proto.start
  have methodForward := method.forward
  have methodWithin := method.within
  have uriForward := uri.forward
  have uriWithin := uri.within
  have protoForward := proto.forward
  have protoWithin := proto.within
  split at done
  · contradiction
  · have pathShort : ((uriStr.bytes buf).takeWhile (· != 63)).length ≤ uriStr.len := by
      refine (List.takeWhile_prefix _).length_le.trans ?_
      unfold MgStr.bytes
      exact List.length_take_le _ _
    generalize ((uriStr.bytes buf).takeWhile (· != 63)).length = path at pathShort done
    split at done
    · next queried =>
        cases done
        refine ⟨protoWithin, within.message, within.body, within.lengths, ?_, within.headers,
          within.few⟩
        simp only [List.forall_mem_cons]
        refine ⟨by omega, by omega, by omega, status, by omega, ?_⟩
        exact fun _ member => absurd member List.not_mem_nil
    · cases done
      refine ⟨protoWithin, within.message, within.body, within.lengths, ?_, within.headers,
        within.few⟩
      simp only [List.forall_mem_cons]
      refine ⟨by omega, by omega, by omega, status, query, ?_⟩
      exact fun _ member => absurd member List.not_mem_nil

private theorem requestLine_append (inside : s ≤ last) (lastInside : last ≤ buf.length) (more : CText) :
    requestLine (buf ++ more) s last hm = requestLine buf s last hm := by
  have method := mgSkip_skips [32] inside lastInside
  have uri := mgSkip_skips [32] method.within lastInside
  have uriInside : (mgSkip buf (mgSkip buf s last [32]).1 last [32]).2.p +
      (mgSkip buf (mgSkip buf s last [32]).1 last [32]).2.len ≤ buf.length := by
    rw [uri.start]
    exact uri.forward.trans (uri.within.trans lastInside)
  unfold requestLine
  dsimp only
  rw [mgSkip_append _ lastInside, mgSkip_append _ lastInside, mgSkip_append _ lastInside,
    bytes_append uriInside]

private theorem statusLine_within (inside : s ≤ last) (lastInside : last ≤ buf.length)
    (within : WithinHead last hm) :
    ∃ found, statusLine buf s last hm = .ok found ∧
      ∀ next after, found = some (next, after) → next ≤ last ∧ WithinHead last after := by
  have proto := mgSkip_skips [32] inside lastInside
  unfold statusLine
  generalize mgSkip buf s last [32] = protoFound at proto
  obtain ⟨afterProto, protoStr⟩ := protoFound
  dsimp only at proto ⊢
  split
  · exact ⟨none, rfl, fun _ _ other => by cases other⟩
  · next room =>
      have firstInside : afterProto < buf.length := by omega
      have fourthInside : afterProto + 3 < buf.length := by omega
      have isFirst := List.getElem?_eq_getElem firstInside
      have isFourth := List.getElem?_eq_getElem fourthInside
      generalize buf[afterProto] = first at isFirst
      generalize buf[afterProto + 3] = fourth at isFourth
      rw [peek_of_getElem isFirst, peek_of_getElem isFourth, overstep_bind_ok, overstep_bind_ok]
      split
      · exact ⟨none, rfl, fun _ _ other => by cases other⟩
      · next digits =>
          rw [not_or, not_or, not_ne_iff] at digits
          obtain ⟨least, most, rfl⟩ := digits
          have solid : isSpace first = false := by
            have notSpace : first ≠ 32 := by
              rintro rfl
              exact least (by decide)
            have high : ¬first ≤ 13 := by
              intro low
              exact least (UInt8.lt_of_le_of_lt low (by decide))
            simp [isSpace, notSpace, high]
          obtain ⟨value, converted⟩ := strtoll_stops isFirst solid isFourth rfl (by omega)
          unfold atoi
          rw [converted, overstep_bind_ok]
          have status := mgSkip_skips [13, 10] (s := afterProto + 4) (by omega) lastInside
          generalize mgSkip buf (afterProto + 4) last [13, 10] = statusFound at status ⊢
          obtain ⟨next, statusStr⟩ := statusFound
          dsimp only [Pure.pure, Except.pure] at status ⊢
          rw [overstep_bind_ok]
          split
          · exact ⟨none, rfl, fun _ _ other => by cases other⟩
          · refine ⟨_, rfl, ?_⟩
            intro _ after same
            cases same
            have line := within.line
            simp only [List.forall_mem_cons] at line
            obtain ⟨method, uri, _, _, query, _⟩ := line
            have statusStart := status.start
            have statusForward := status.forward
            have statusWithin := status.within
            have protoStart := proto.start
            have protoForward := proto.forward
            refine ⟨statusWithin, within.message, within.body, within.lengths, ?_,
              within.headers, within.few⟩
            simp only [List.forall_mem_cons]
            refine ⟨method, uri, by omega, by omega, query, ?_⟩
            exact fun _ member => absurd member List.not_mem_nil

private theorem statusLine_append (lastInside : last ≤ buf.length)
    {found : Option (Nat × HttpMessage)} (done : statusLine buf s last hm = .ok found)
    (more : CText) : statusLine (buf ++ more) s last hm = .ok found := by
  unfold statusLine at done ⊢
  rw [mgSkip_append _ lastInside]
  generalize mgSkip buf s last [32] = protoFound at done ⊢
  obtain ⟨afterProto, protoStr⟩ := protoFound
  dsimp only at done ⊢
  rw [mgSkip_append _ lastInside]
  split at done
  · next short =>
      rw [if_pos short]
      exact done
  · next room =>
      rw [if_neg room]
      obtain ⟨first, isFirst, done⟩ := overstep_bind_eq_ok done
      obtain ⟨fourth, isFourth, done⟩ := overstep_bind_eq_ok done
      rw [peek_append isFirst more, peek_append isFourth more, overstep_bind_ok, overstep_bind_ok]
      split at done
      · next other =>
          rw [if_pos other]
          exact done
      · next digits =>
          rw [if_neg digits]
          obtain ⟨code, converted, done⟩ := overstep_bind_eq_ok done
          unfold atoi at converted ⊢
          obtain ⟨value, read, same⟩ := overstep_bind_eq_ok converted
          cases same
          rw [strtoll_append read more]
          exact done

theorem mgVcasecmp_inside {str : MgStr} (inside : str.p + str.len ≤ buf.length) (other : CText) :
    ∃ diff, mgVcasecmp buf str other = .ok diff := by
  have within : str.p + (if str.len < other.length then str.len else other.length) ≤
      buf.length := by
    split <;> omega
  obtain ⟨diff, compared⟩ := mgNcasecmp_inside other within
  unfold mgVcasecmp
  dsimp only
  rw [compared]
  exact ⟨_, rfl⟩

theorem mgVcasecmp_append {str : MgStr} {other : CText} {diff : Int}
    (done : mgVcasecmp buf str other = .ok diff) (more : CText) :
    mgVcasecmp (buf ++ more) str other = .ok diff := by
  unfold mgVcasecmp at done ⊢
  obtain ⟨r, compared, done⟩ := overstep_bind_eq_ok done
  dsimp only
  rw [mgNcasecmp_append compared more]
  exact done

private theorem bodyless_within (lastInside : last ≤ buf.length) (isReq : Bool)
    (within : WithinHead last hm) :
    ∃ after, bodyless buf last isReq hm = .ok after ∧ WithinHead last after := by
  unfold bodyless
  split
  · have methodInside : hm.method.p + hm.method.len ≤ buf.length :=
      (within.line hm.method List.mem_cons_self).trans lastInside
    obtain ⟨put, isPut⟩ := mgVcasecmp_inside methodInside (text "PUT")
    obtain ⟨post, isPost⟩ := mgVcasecmp_inside methodInside (text "POST")
    rw [isPut, isPost, overstep_bind_ok, overstep_bind_ok]
    split
    · exact ⟨_, rfl, within.message, within.body, .inr (.inr ⟨rfl, rfl⟩), within.line,
        within.headers, within.few⟩
    · exact ⟨hm, rfl, within⟩
  · exact ⟨hm, rfl, within⟩

private theorem bodyless_append {isReq : Bool} {after : HttpMessage}
    (done : bodyless buf last isReq hm = .ok after) (more : CText) :
    bodyless (buf ++ more) last isReq hm = .ok after := by
  unfold bodyless at done ⊢
  split at done
  · next lengthless =>
      rw [if_pos lengthless]
      obtain ⟨put, isPut, done⟩ := overstep_bind_eq_ok done
      obtain ⟨post, isPost, done⟩ := overstep_bind_eq_ok done
      rw [mgVcasecmp_append isPut more, mgVcasecmp_append isPost more, overstep_bind_ok,
        overstep_bind_ok]
      exact done
  · next other =>
      rw [if_neg other]
      exact done

end Line

/-! ### Messages -/

private theorem withinHead_start (last : Nat) : WithinHead last (.start last) where
  message := rfl
  body := rfl
  lengths := .inl ⟨rfl, rfl⟩
  line := by
    simp only [HttpMessage.start, HttpMessage.zero, MgStr.null, List.forall_mem_cons]
    refine ⟨Nat.zero_le _, Nat.zero_le _, Nat.zero_le _, Nat.zero_le _, Nat.zero_le _, ?_⟩
    exact fun _ member => absurd member List.not_mem_nil
  headers := fun _ member => absurd member List.not_mem_nil
  few := Nat.zero_lt_succ 39

section FirstLine

variable {buf : CText} {s last : Nat} {isReq : Bool}

private theorem firstLine_within (inside : s ≤ last) (lastInside : last ≤ buf.length) :
    ∃ found, firstLine buf isReq s last = .ok found ∧
      ∀ next after, found = some (next, after) → next ≤ last ∧ WithinHead last after := by
  have start := withinHead_start last
  cases isReq with
  | true => exact ⟨_, rfl, fun next after => requestLine_within inside lastInside start⟩
  | false => exact statusLine_within inside lastInside start

private theorem firstLine_append (inside : s ≤ last) (lastInside : last ≤ buf.length)
    {found : Option (Nat × HttpMessage)} (done : firstLine buf isReq s last = .ok found)
    (more : CText) : firstLine (buf ++ more) isReq s last = .ok found := by
  cases isReq with
  | true =>
      unfold firstLine at done ⊢
      rw [if_pos rfl] at done ⊢
      rw [requestLine_append inside lastInside]
      exact done
  | false => exact statusLine_append lastInside done more

end FirstLine

section ReadHead

variable {buf : CText} {last : Nat} {isReq : Bool}

private theorem blanks_inside (buf : CText) (last : Nat) :
    ((buf.take last).takeWhile isSpace).length ≤ last :=
  (List.takeWhile_prefix _).length_le.trans (List.length_take_le _ _)

private theorem readHead_within (head : HeadAt buf last) :
    ∃ len hm, readHead buf isReq last = .ok (len, hm) ∧
      (len = -1 ∨ len = last ∧ WithinHead last hm) := by
  obtain ⟨line, isLine, lineWithin⟩ :=
    @firstLine_within _ _ _ isReq (blanks_inside buf last) head.inside
  unfold readHead
  dsimp only
  rw [isLine, overstep_bind_ok]
  cases line with
  | none => exact ⟨-1, _, rfl, .inl rfl⟩
  | some found =>
      obtain ⟨next, hm⟩ := found
      obtain ⟨nextInside, within⟩ := lineWithin next hm rfl
      have enough : last - next < last + 1 := by omega
      obtain ⟨parsed, isParsed, parsedWithin⟩ :=
        mgHttpParseHeaders_within head nextInside enough within
      obtain ⟨after, isAfter, afterWithin⟩ := bodyless_within head.inside isReq parsedWithin
      dsimp only
      rw [isParsed, overstep_bind_ok, isAfter]
      exact ⟨last, after, rfl, .inr ⟨rfl, afterWithin⟩⟩

private theorem readHead_append (head : HeadAt buf last) {found : Int × HttpMessage}
    (done : readHead buf isReq last = .ok found) (more : CText) :
    readHead (buf ++ more) isReq last = .ok found := by
  obtain ⟨line, isLine, lineWithin⟩ :=
    @firstLine_within _ _ _ isReq (blanks_inside buf last) head.inside
  unfold readHead at done ⊢
  dsimp only at done ⊢
  rw [List.take_append_of_le_length head.inside,
    firstLine_append (blanks_inside buf last) head.inside isLine more, overstep_bind_ok]
  rw [isLine, overstep_bind_ok] at done
  cases line with
  | none => exact done
  | some pair =>
      obtain ⟨next, hm⟩ := pair
      dsimp only at done ⊢
      obtain ⟨headers, isHeaders, done⟩ := overstep_bind_eq_ok done
      obtain ⟨body, isBody, done⟩ := overstep_bind_eq_ok done
      rw [mgHttpParseHeaders_append head.inside (lineWithin next hm rfl).1 isHeaders more,
        overstep_bind_ok, bodyless_append isBody more]
      exact done

end ReadHead

/-- `mg_parse_http` where a head has been found. -/
theorem EndsHead.parse {head rest : CText} (ends : EndsHead head rest) (isReq : Bool) :
    mgParseHttp (head ++ rest) isReq = readHead (head ++ rest) isReq head.length := by
  have found := ends.requestLen 0
  rw [Int.ofNat_zero, Int.zero_add] at found
  have positive : ¬(head.length : Int) ≤ 0 := by
    have long := ends.headAt.long
    omega
  unfold mgParseHttp mgHttpGetRequestLen
  dsimp only
  rw [found, if_neg positive, Int.toNat_natCast]

private theorem mgParseHttp_of_nonpos {buf : CText} (undone : requestLenFrom 0 buf ≤ 0) (isReq : Bool) :
    mgParseHttp buf isReq = .ok (requestLenFrom 0 buf, .zero) := by
  unfold mgParseHttp mgHttpGetRequestLen
  dsimp only
  rw [if_pos undone]

/-- `mg_parse_http` comes to an end on every buffer and reads nothing outside of
it.  It fails, waits for more, or finds a head that is in the buffer with
everything it has read. -/
theorem mgParseHttp_within (buf : CText) (isReq : Bool) :
    ∃ len hm, mgParseHttp buf isReq = .ok (len, hm) ∧
      (len = 0 ∧ hm = .zero ∨ len = -1 ∨
        ∃ last : Nat, len = last ∧ HeadAt buf last ∧ WithinHead last hm) := by
  rcases requestLenFrom_cases 0 buf with none_ | bad | ⟨head, rest, rfl, ends⟩
  · rw [mgParseHttp_of_nonpos (le_of_eq none_), none_]
    exact ⟨0, .zero, rfl, .inl ⟨rfl, rfl⟩⟩
  · rw [mgParseHttp_of_nonpos (bad ▸ by decide), bad]
    exact ⟨-1, .zero, rfl, .inr (.inl rfl)⟩
  · obtain ⟨len, hm, done, outcome⟩ := @readHead_within _ _ isReq ends.headAt
    rw [ends.parse]
    refine ⟨len, hm, done, ?_⟩
    rcases outcome with bad | ⟨isLast, within⟩
    · exact .inr (.inl bad)
    · exact .inr (.inr ⟨head.length, isLast, ends.headAt, within⟩)

/-- Once a head has been found, or found to be bad, more bytes change nothing. -/
theorem mgParseHttp_append {buf : CText} {isReq : Bool} {len : Int} {hm : HttpMessage}
    (parsed : mgParseHttp buf isReq = .ok (len, hm)) (decided : len ≠ 0) (more : CText) :
    mgParseHttp (buf ++ more) isReq = .ok (len, hm) := by
  rcases requestLenFrom_cases 0 buf with none_ | bad | ⟨head, rest, rfl, ends⟩
  · rw [mgParseHttp_of_nonpos (le_of_eq none_), none_] at parsed
    cases parsed
    exact absurd rfl decided
  · have stays := requestLenFrom_append (bad ▸ by decide : requestLenFrom 0 buf ≠ 0) more
    have still : requestLenFrom 0 (buf ++ more) ≤ 0 := by
      rw [stays, bad]
      decide
    rw [mgParseHttp_of_nonpos (bad ▸ by decide)] at parsed
    rw [mgParseHttp_of_nonpos still, stays]
    exact parsed
  · rw [ends.parse] at parsed
    rw [List.append_assoc, (ends.behind (rest ++ more)).parse, ← List.append_assoc]
    exact readHead_append ends.headAt parsed more

private theorem EndsHead.parse_behind {head rest : CText} (ends : EndsHead head rest) (isReq : Bool)
    (other : CText) :
    mgParseHttp (head ++ other) isReq = mgParseHttp (head ++ rest) isReq := by
  have alone := ends.behind []
  obtain ⟨len, hm, done, _⟩ := @readHead_within _ _ isReq alone.headAt
  rw [List.append_nil] at done
  have headAt := alone.headAt
  rw [List.append_nil] at headAt
  rw [ends.parse, (ends.behind other).parse, readHead_append headAt done other,
    readHead_append headAt done rest]

/-- Of a message that is received piece by piece nothing is seen until its head is
there, and then everything is. -/
theorem mgParseHttp_front {front behind : CText} {isReq : Bool} {len : Nat} {hm : HttpMessage}
    (parsed : mgParseHttp (front ++ behind) isReq = .ok ((len : Int), hm)) (some_ : 0 < len) :
    mgParseHttp front isReq =
      if len ≤ front.length then .ok ((len : Int), hm) else .ok (0, .zero) := by
  obtain ⟨n, found, isFound, outcome⟩ := mgParseHttp_within front isReq
  rw [isFound]
  by_cases decided : n = 0
  · have isZero : found = .zero := by
      rcases outcome with ⟨_, isZero⟩ | bad | ⟨last, isLast, head, _⟩
      · exact isZero
      · omega
      · have long := head.long
        omega
    subst decided isZero
    rw [if_neg]
    intro inside
    rcases requestLenFrom_cases 0 (front ++ behind) with none_ | bad | ⟨head, rest, split, ends⟩
    · rw [mgParseHttp_of_nonpos (le_of_eq none_), none_] at parsed
      cases parsed
      contradiction
    · rw [mgParseHttp_of_nonpos (by rw [bad]; decide), bad] at parsed
      cases parsed
    · have isLen : len = head.length := by
        obtain ⟨n, hm, done, outcome⟩ := @readHead_within _ _ isReq ends.headAt
        rw [split, ends.parse, done] at parsed
        cases parsed
        rcases outcome with bad | ⟨same, _⟩
        · omega
        · omega
      have isFront : front = head ++ front.drop head.length := by
        have taken : front.take head.length = head := by
          have both := congrArg (List.take head.length) split
          rwa [List.take_append_of_le_length (by omega), List.take_left] at both
        conv_lhs => rw [← List.take_append_drop head.length front, taken]
      have whole := ends.parse_behind isReq (front.drop head.length)
      rw [← isFront, ← split, parsed, isFound] at whole
      cases whole
      contradiction
  · have same := mgParseHttp_append isFound decided behind
    rw [parsed] at same
    cases same
    rcases outcome with ⟨zero, _⟩ | bad | ⟨last, isLast, head, _⟩
    · exact absurd zero decided
    · omega
    · have inside := head.inside
      rw [if_pos (by omega)]

end DlcServer
