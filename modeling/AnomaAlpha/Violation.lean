import AnomaAlpha.Grammar

namespace AnomaAlpha

-- What has been read can still become a well-formed path.
def Completable (seen : List Char) : Prop := ∃ rest, Grammatical (seen ++ rest)

-- What is wrong with a path where it goes wrong first, from left to right.
inductive Violation : List Char → AddressError → Prop where
  | emptyPath : Violation [] .emptyPath
  | missingStartingSlash (rest : List Char) : c ≠ '/' → Violation (c :: rest) .missingStartingSlash
  | emptyPathSegment (seen rest : List Char) : Completable (seen ++ ['/']) →
      Violation (seen ++ '/' :: '/' :: rest) .emptyPathSegment
  | invalidCharacter (seen rest : List Char) : seen ≠ [] → Completable seen → c ≠ '/' → segmentChar c = false →
      Violation (seen ++ c :: rest) (.invalidCharacter c)
  | invalidEndingSlash (front : List Char) : front = [] ∨ Grammatical front → Violation (front ++ ['/']) .invalidEndingSlash

theorem scan_front {segmentLen n : Nat} {front back : List Char} (scanned : scanSegments segmentLen (front ++ back) = .ok n) :
    ∃ m, scanSegments segmentLen front = .ok m := by
  rw [scan_append] at scanned
  cases seen : scanSegments segmentLen front with
  | error e =>
      rw [seen] at scanned
      cases scanned
  | ok m => exact ⟨m,rfl⟩

theorem scan_snoc {segmentLen m : Nat} {front : List Char} (seen : scanSegments segmentLen front = .ok m) (c : Char) :
    scanSegments segmentLen (front ++ [c]) = scanSegments m [c] := by
  rw [scan_append,seen]
  rfl

theorem scan_one {c : Char} (plain : segmentChar c = true) (m : Nat) : scanSegments m [c] = .ok (m+1) := by
  have inner : c ≠ '/' := by
    intro same
    subst same
    rw [slash_separates] at plain
    cases plain
  rw [scanSegments,if_neg (fun both => inner both.1),if_pos ((allowed_char c).mpr (.inr plain)),if_neg inner]
  rfl

theorem completable_iff (chars : List Char) : Completable ('/' :: chars) ↔ ∃ m, scanSegments 0 chars = .ok m := by
  constructor
  · intro given
    obtain ⟨rest,formed⟩ := given
    obtain ⟨whole,n,split,scanned⟩ := check_parts ((check_iff _).mpr formed)
    cases split
    exact scan_front scanned
  · intro given
    obtain ⟨m,seen⟩ := given
    refine ⟨['a'],(check_iff _).mp (check_slash (n:=m) ?_)⟩
    change scanSegments 0 (chars ++ ['a']) = _
    rw [scan_snoc seen,scan_one (by decide)]

theorem completable_starts {c : Char} {seen : List Char} (completable : Completable (c :: seen)) : c = '/' := by
  obtain ⟨rest,formed⟩ := completable
  obtain ⟨_,_,split,_⟩ := check_parts ((check_iff _).mpr formed)
  cases split
  rfl

-- The running length is zero just behind a slash.
theorem scan_zero {chars : List Char} : scanSegments 0 chars = .ok 0 ↔
    chars = [] ∨ ∃ front n, chars = front ++ ['/'] ∧ scanSegments 0 front = .ok (n+1) := by
  constructor
  · intro scanned
    rcases List.eq_nil_or_concat chars with empty | ⟨front,c,rfl⟩
    · exact .inl empty
    · rw [List.concat_eq_append] at scanned ⊢
      obtain ⟨m,seen⟩ := scan_front scanned
      rw [scan_snoc seen,scanSegments] at scanned
      split at scanned
      · cases scanned
      · rename_i filled
        split at scanned
        · rw [scanSegments] at scanned
          split at scanned
          · rename_i slash
            subst slash
            cases m with
            | zero => exact (filled ⟨rfl,rfl⟩).elim
            | succ m => exact .inr ⟨front,m,rfl,seen⟩
          · cases scanned
        · cases scanned
  · intro given
    rcases given with rfl | ⟨front,n,rfl,seen⟩
    · rfl
    · rw [scan_snoc seen]
      rfl

theorem scan_stops {segmentLen : Nat} {chars : List Char} {e : AddressError}
    (stopped : scanSegments segmentLen chars = .error e) :
    ∃ front c rest m, chars = front ++ c :: rest ∧ scanSegments segmentLen front = .ok m ∧
      (c = '/' ∧ m = 0 ∧ e = .emptyPathSegment ∨ c ≠ '/' ∧ segmentChar c = false ∧ e = .invalidCharacter c) := by
  induction chars generalizing segmentLen with
  | nil => cases stopped
  | cons c chars ih =>
      rw [scanSegments] at stopped
      split at stopped
      · rename_i doubled
        cases stopped
        exact ⟨[],c,chars,segmentLen,rfl,rfl,.inl ⟨doubled.1,doubled.2,rfl⟩⟩
      · rename_i single
        split at stopped
        · rename_i allowed
          obtain ⟨front,d,rest,m,rfl,seen,why⟩ := ih stopped
          refine ⟨c :: front,d,rest,m,rfl,?_,why⟩
          rw [scanSegments,if_neg single,if_pos allowed]
          exact seen
        · rename_i refused
          cases stopped
          rw [allowed_char,not_or,Bool.not_eq_true] at refused
          exact ⟨[],c,chars,segmentLen,rfl,rfl,.inr ⟨refused.1,refused.2,rfl⟩⟩

theorem scan_refuses {segmentLen m : Nat} {front : List Char} {c : Char} (seen : scanSegments segmentLen front = .ok m)
    (rest : List Char) : (c = '/' → m = 0 → scanSegments segmentLen (front ++ c :: rest) = .error .emptyPathSegment) ∧
    (c ≠ '/' → segmentChar c = false → scanSegments segmentLen (front ++ c :: rest) = .error (.invalidCharacter c)) := by
  rw [scan_append,seen]
  constructor
  · intro same equal
    subst same
    subst equal
    rfl
  · intro inner refused
    change scanSegments m (c :: rest) = _
    rw [scanSegments,if_neg (fun both => inner both.1),if_neg]
    rw [allowed_char,refused]
    simp [inner]

theorem check_error {chars : List Char} {e : AddressError} (stopped : scanSegments 0 chars = .error e) :
    checkPath ('/' :: chars) = .error e := by
  rw [checkPath,if_neg (by simp),stopped]

theorem check_refuses (path : List Char) (e : AddressError) : checkPath path = .error e ↔ Violation path e := by
  constructor
  · intro refused
    unfold checkPath at refused
    split at refused
    · cases refused
      exact .emptyPath
    · rename_i first chars
      split at refused
      · rename_i other
        cases refused
        exact .missingStartingSlash chars other
      · rename_i slash
        obtain rfl : first = '/' := by simpa using slash
        split at refused
        · rename_i stopped
          cases refused
          obtain ⟨front,c,rest,m,rfl,seen,⟨rfl,rfl,rfl⟩ | ⟨inner,other,rfl⟩⟩ := scan_stops stopped
          · rcases scan_zero.mp seen with rfl | ⟨front,n,rfl,_⟩
            · exact .emptyPathSegment [] rest ((completable_iff []).mpr ⟨0,rfl⟩)
            · rw [List.append_assoc]
              exact .emptyPathSegment ('/' :: front) rest ((completable_iff _).mpr ⟨0,seen⟩)
          · exact .invalidCharacter ('/' :: front) rest (by simp) ((completable_iff front).mpr ⟨m,seen⟩) inner other
        · rename_i scanned
          cases refused
          rcases scan_zero.mp scanned with rfl | ⟨front,n,rfl,seen⟩
          · exact .invalidEndingSlash [] (.inl rfl)
          · exact .invalidEndingSlash ('/' :: front) (.inr ((check_iff _).mp (check_slash seen)))
        · cases refused
  · intro violated
    cases violated with
    | emptyPath => rfl
    | missingStartingSlash rest other => rw [checkPath,if_pos other]
    | emptyPathSegment front rest completable =>
        cases front with
        | nil => rfl
        | cons c front =>
            obtain rfl := completable_starts completable
            obtain ⟨m,seen⟩ := (completable_iff (front ++ ['/'])).mp completable
            obtain ⟨n,before⟩ := scan_front seen
            have behind : m = 0 := by
              rw [scan_snoc before] at seen
              cases n <;> cases seen
              rfl
            subst behind
            have stopped := (scan_refuses seen rest).1 rfl rfl
            rw [List.append_assoc] at stopped
            exact check_error stopped
    | invalidCharacter front rest filled completable inner refused =>
        cases front with
        | nil => exact (filled rfl).elim
        | cons d front =>
            obtain rfl := completable_starts completable
            obtain ⟨m,seen⟩ := (completable_iff _).mp completable
            exact check_error ((scan_refuses seen rest).2 inner refused)
    | invalidEndingSlash front closed =>
        rcases closed with rfl | formed
        · rfl
        · obtain ⟨chars,n,rfl,seen⟩ := check_parts ((check_iff _).mpr formed)
          have ended := scan_zero.mpr (.inr ⟨chars,n,rfl,seen⟩)
          rw [List.cons_append,checkPath,if_neg (by simp),ended]

theorem new_refuses (path : String) (e : AddressError) : Address.new path = .error e ↔ Violation path.toList e := by
  rw [← check_refuses]
  unfold Address.new
  constructor
  · intro refused
    split at refused
    · cases refused
    · rename_i checked
      cases refused
      exact checked
  · intro refused
    split
    · rename_i checked
      rw [refused] at checked
      cases checked
    · rename_i checked
      rw [refused] at checked
      cases checked
      rfl

theorem address_grammar (path : String) :
    ((∃ address, Address.new path = .ok address) ↔ Grammatical path.toList) ∧
    (∀ address, Address.new path = .ok address → address.toString = path) ∧
    ∀ e, Address.new path = .error e ↔ Violation path.toList e :=
  ⟨new_accepts,fun _ made => new_ok.mp made,new_refuses path⟩

end AnomaAlpha
