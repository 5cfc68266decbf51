import BetaTrader.Client.SessionCalls

/-!
# The file of the sequence numbers

`SeqNumStore` keeps its two numbers in one line of a file.  `save` empties the file
before it writes, so that a crash can leave any beginning of the line.  `load` starts
afresh where a number is missing, but cannot tell a number that has been cut.
-/

namespace BetaTrader

open Decimal

namespace SeqNumStore

/-- What `save` writes. -/
def fileText (store : SeqNumStore) : Message :=
  natText store.inSeqNum.toNat ++ ' ' :: natText store.outSeqNum.toNat ++ ['\n']

/-- `std::getline` and the two `>>` of `load`. -/
def parseFile (content : Message) : Option SeqNumStore := do
  let line ← if content = [] then none else some (content.takeWhile (· ≠ '\n'))
  let (inSeq, rest) ← Strtoul.extract 32 line
  let (outSeq, _) ← Strtoul.extract 32 rest
  return ⟨UInt32.ofNat inSeq, UInt32.ofNat outSeq⟩

/-- The numbers that `load` comes to, and whether it saves them. -/
def load (content : Option Message) : SeqNumStore × Bool :=
  match content.bind parseFile with
  | some store => (store, false)
  | none => (.reset, true)

/-- The numbers that a new store on the file has. -/
def recovered (content : Option Message) : SeqNumStore := (load content).1

end SeqNumStore

/-- A store and its file, if there is one. -/
structure SeqNumFile where
  content : Option Message
  store : SeqNumStore

inductive SeqNumOp where
  | setSeqNums (inSeq outSeq : UInt32)
  | reset
  /-- The store is closed, and a new one made. -/
  | reopen

/-- How far a call gets. -/
inductive CrashPoint where
  | beforeSave
  /-- The file has been emptied, and so many characters are in it. -/
  | inSave (written : ℕ)

namespace SeqNumFile

open SeqNumStore

/-- The numbers after a call, and whether it saves them. -/
def apply (f : SeqNumFile) : SeqNumOp → SeqNumStore × Bool
  | .setSeqNums inSeq outSeq => (⟨inSeq, outSeq⟩, true)
  | .reset => (.reset, true)
  | .reopen => load f.content

def step (f : SeqNumFile) (op : SeqNumOp) : SeqNumFile where
  content := if (f.apply op).2 then some (f.apply op).1.fileText else f.content
  store := (f.apply op).1

/-- The file after a crash in a call. -/
def crashed (f : SeqNumFile) (op : SeqNumOp) : CrashPoint → Option Message
  | .beforeSave => f.content
  | .inSave written =>
      if (f.apply op).2 then some ((f.apply op).1.fileText.take written) else f.content

/-- Before the first store is made there are the numbers that it will have. -/
def found (content : Option Message) : SeqNumFile := ⟨content, recovered content⟩

/-- The numbers that a call sets. -/
def latest (store : SeqNumStore) : SeqNumOp → SeqNumStore
  | .setSeqNums inSeq outSeq => ⟨inSeq, outSeq⟩
  | .reset => .reset
  | .reopen => store

/-- The file stands for the numbers of the store. -/
def Saved (f : SeqNumFile) : Prop := recovered f.content = f.store

end SeqNumFile

/-! ## Reading what has been written -/

namespace SeqNumStore

section Parse

variable {inText outText : List Char}

theorem parseFile_pair (hin : ∀ c ∈ inText, c.isDigit = true)
    (hout : ∀ c ∈ outText, c.isDigit = true) (hinNe : inText ≠ []) (houtNe : outText ≠ [])
    (hinLt : Strtoul.value inText < 2 ^ 32) (houtLt : Strtoul.value outText < 2 ^ 32)
    {rest : List Char} (hrest : rest = [] ∨ rest = ['\n']) :
    parseFile (inText ++ ' ' :: outText ++ rest) =
      some ⟨UInt32.ofNat (Strtoul.value inText), UInt32.ofNat (Strtoul.value outText)⟩ := by
  have hbreak : '\n' ∉ inText ++ ' ' :: outText := by
    intro hmem
    rcases List.mem_append.mp hmem with hmem | hmem
    · exact absurd (hin _ hmem) (by decide)
    · rcases List.mem_cons.mp hmem with heq | hmem
      · exact absurd heq (by decide)
      · exact absurd (hout _ hmem) (by decide)
  have hline : (inText ++ ' ' :: outText ++ rest).takeWhile (· ≠ '\n') =
      inText ++ ' ' :: outText := by
    rcases hrest with rfl | rfl
    · rw [List.append_nil]
      exact List.takeWhile_eq_self_iff.mpr fun c hc => by
        simpa using ne_of_mem_of_not_mem hc hbreak
    · exact Text.takeWhile_ne_append hbreak
  have hne : inText ++ ' ' :: outText ++ rest ≠ [] := by simp
  have hblank : Strtoul.extract 32 (' ' :: outText) = some (Strtoul.value outText, []) := by
    have hextract := extract_digits hout houtNe houtLt [] (by simp)
    rw [List.append_nil] at hextract
    exact hextract
  have hfirst := extract_digits hin hinNe hinLt (' ' :: outText) (by simp)
  simp only [parseFile, if_neg hne, hline, hfirst, hblank, Option.bind_eq_bind, Option.bind_some]
  rfl

/-- One number is not enough, with or without the blank behind it. -/
theorem parseFile_single (hin : ∀ c ∈ inText, c.isDigit = true) {blanks : List Char}
    (hblanks : blanks = [] ∨ blanks = [' ']) : parseFile (inText ++ blanks) = none := by
  have hspaces : ∀ c ∈ blanks, Strtoul.isSpace c = true := by
    rcases hblanks with rfl | rfl
    · exact List.forall_mem_nil _
    · exact List.forall_mem_singleton.mpr (by decide)
  have hrest : ∀ c ∈ blanks.head?, c.isDigit = false := by
    intro c hc
    rcases hblanks with rfl | rfl
    · cases hc
    · cases hc
      decide
  have hline : (inText ++ blanks).takeWhile (· ≠ '\n') = inText ++ blanks := by
    refine List.takeWhile_eq_self_iff.mpr fun c hc => ?_
    have hbreak : c ≠ '\n' := by
      rintro rfl
      rcases List.mem_append.mp hc with hmem | hmem
      · exact absurd (hin _ hmem) (by decide)
      · rcases hblanks with rfl | rfl <;> exact absurd hmem (by decide)
    simpa using hbreak
  have hnone : Strtoul.extract 32 blanks = none := extract_blanks hspaces
  by_cases hempty : inText ++ blanks = []
  · simp [parseFile, hempty]
  · simp only [parseFile, if_neg hempty, hline, Option.bind_eq_bind, Option.bind_some]
    by_cases hne : inText = []
    · rw [hne, List.nil_append, hnone]
      rfl
    · by_cases hlt : Strtoul.value inText < 2 ^ 32
      · rw [extract_digits hin hne hlt blanks hrest, Option.bind_some, hnone]
        rfl
      · rw [extract_overflow hin hne (not_lt.mp hlt) blanks hrest]
        rfl

end Parse

section Cut

/-- Where the second number begins. -/
def outStart (store : SeqNumStore) : ℕ := (natText store.inSeqNum.toNat).length + 1

/-- Where the second number ends. -/
def outEnd (store : SeqNumStore) : ℕ :=
  store.outStart + (natText store.outSeqNum.toNat).length

/-- The second number without its last digits. -/
def cut (store : SeqNumStore) (digits : ℕ) : SeqNumStore :=
  { store with outSeqNum := UInt32.ofNat (store.outSeqNum.toNat / 10 ^ digits) }

theorem cut_zero (store : SeqNumStore) : store.cut 0 = store := by
  simp [cut]

/-- A cut number is another number. -/
theorem cut_ne {store : SeqNumStore} {written : ℕ} (hstart : store.outStart < written)
    (hend : written < store.outEnd) : store.cut (store.outEnd - written) ≠ store := by
  intro heq
  have hout : store.outSeqNum.toNat ≠ 0 := by
    intro hzero
    have hlength : store.outEnd = store.outStart + 1 := by
      rw [outEnd, hzero]
      rfl
    omega
  have hlt : store.outSeqNum.toNat / 10 ^ (store.outEnd - written) < store.outSeqNum.toNat :=
    Nat.div_lt_self (Nat.pos_of_ne_zero hout) (Nat.one_lt_pow (by omega) (by decide))
  have hnum := congrArg (fun cut : SeqNumStore => cut.outSeqNum.toNat) heq
  rw [cut] at hnum
  dsimp only at hnum
  rw [UInt32.toNat_ofNat_of_lt' (hlt.trans store.outSeqNum.toNat_lt)] at hnum
  omega

/-- What a new store makes of a line that is not finished. -/
theorem recovered_take (store : SeqNumStore) (written : ℕ) :
    recovered (some (store.fileText.take written)) =
      if written ≤ store.outStart then .reset else store.cut (store.outEnd - written) := by
  have hin : ∀ c ∈ natText store.inSeqNum.toNat, c.isDigit = true := fun _ =>
    isDigit_of_mem_natText
  have hout : ∀ c ∈ natText store.outSeqNum.toNat, c.isDigit = true := fun _ =>
    isDigit_of_mem_natText
  have htext : store.fileText = natText store.inSeqNum.toNat ++
      ' ' :: (natText store.outSeqNum.toNat ++ ['\n']) := by
    simp [fileText]
  have hrecovered {content : Message} (hnone : parseFile content = none) :
      recovered (some content) = .reset := by
    simp [recovered, load, hnone]
  split_ifs with hstart
  · apply hrecovered
    rw [htext]
    rcases Nat.lt_or_eq_of_le hstart with hlt | rfl
    · rw [List.take_append_of_le_length (by rw [outStart] at hlt; omega)]
      have hdigits : ∀ c ∈ (natText store.inSeqNum.toNat).take written, c.isDigit = true :=
        fun c hc => hin c (List.mem_of_mem_take hc)
      have hsingle := parseFile_single hdigits (Or.inl rfl)
      rwa [List.append_nil] at hsingle
    · rw [outStart, List.take_length_add_append]
      exact parseFile_single hin (Or.inr rfl)
  · obtain ⟨j, rfl⟩ := Nat.exists_eq_add_of_lt (not_le.mp hstart)
    have hcut : ∀ c ∈ (natText store.outSeqNum.toNat).take (j + 1), c.isDigit = true :=
      fun c hc => hout c (List.mem_of_mem_take hc)
    have hvalue := value_take_natText store.outSeqNum.toNat (j + 1)
    have hle := Nat.div_le_self store.outSeqNum.toNat
      (10 ^ ((natText store.outSeqNum.toNat).length - (j + 1)))
    have htake : store.fileText.take (store.outStart + j + 1) = natText store.inSeqNum.toNat ++
        ' ' :: (natText store.outSeqNum.toNat).take (j + 1) ++
          ['\n'].take (j + 1 - (natText store.outSeqNum.toNat).length) := by
      have hsum : store.outStart + j + 1 = (natText store.inSeqNum.toNat).length + (j + 1 + 1) := by
        rw [outStart]
        omega
      rw [htext, hsum, List.take_length_add_append, List.take_succ_cons, List.take_append]
      simp
    have hrest : ['\n'].take (j + 1 - (natText store.outSeqNum.toNat).length) = [] ∨
        ['\n'].take (j + 1 - (natText store.outSeqNum.toNat).length) = ['\n'] := by
      cases j + 1 - (natText store.outSeqNum.toNat).length with
      | zero => exact Or.inl rfl
      | succ k => exact Or.inr (by simp)
    have hparse := parseFile_pair hin hcut natText_ne_nil (by simp [natText_ne_nil])
      (by rw [value_natText]; exact store.inSeqNum.toNat_lt)
      (by rw [hvalue]; exact hle.trans_lt store.outSeqNum.toNat_lt) hrest
    have hdigits : store.outEnd - (store.outStart + j + 1) =
        (natText store.outSeqNum.toNat).length - (j + 1) := by
      rw [outEnd]
      omega
    rw [htake]
    simp only [recovered, load, Option.bind_some, hparse]
    rw [cut, hdigits, value_natText, hvalue, UInt32.ofNat_toNat]

/-- The whole line is read as it was written. -/
theorem recovered_fileText (store : SeqNumStore) : recovered (some store.fileText) = store := by
  have hlength : store.fileText.length = store.outEnd + 1 := by
    simp only [fileText, outEnd, outStart, List.length_append, List.length_cons, List.length_nil]
    omega
  have htake := recovered_take store store.fileText.length
  rw [List.take_length, hlength, if_neg (by rw [outEnd]; omega)] at htake
  have hzero : store.outEnd - (store.outEnd + 1) = 0 := by omega
  rw [htake, hzero, cut_zero]

/-- Every beginning of the first line stands for the first numbers. -/
theorem recovered_take_reset (written : ℕ) :
    recovered (some (SeqNumStore.reset.fileText.take written)) = .reset := by
  rw [recovered_take]
  split_ifs with hstart
  · rfl
  · have hend : SeqNumStore.reset.outEnd = SeqNumStore.reset.outStart + 1 := rfl
    have hzero : SeqNumStore.reset.outEnd - written = 0 := by omega
    rw [hzero, cut_zero]

end Cut

end SeqNumStore

namespace SeqNumFile

open SeqNumStore

variable {f : SeqNumFile}

theorem apply_eq_latest (h : f.Saved) (op : SeqNumOp) : (f.apply op).1 = latest f.store op := by
  cases op with
  | setSeqNums inSeq outSeq => rfl
  | reset => rfl
  | reopen => exact h

/-- Only a store that finds no numbers saves when it is made. -/
theorem store_of_reopen_saves (h : f.Saved) (hsaves : (f.apply .reopen).2 = true) :
    f.store = .reset := by
  rw [← h, recovered]
  rw [apply] at hsaves
  unfold load at hsaves ⊢
  split at hsaves
  · cases hsaves
  · rfl

theorem saved_step (f : SeqNumFile) (op : SeqNumOp) : (f.step op).Saved := by
  rw [Saved, step]
  split_ifs with hsaves
  · exact recovered_fileText _
  · cases op with
    | setSeqNums inSeq outSeq => exact absurd rfl hsaves
    | reset => exact absurd rfl hsaves
    | reopen => rfl

/-- Without a crash the file has the numbers that have been set last. -/
theorem saved_run (h : f.Saved) (ops : List SeqNumOp) :
    (ops.foldl step f).Saved ∧ (ops.foldl step f).store = ops.foldl latest f.store := by
  induction ops generalizing f with
  | nil => exact ⟨h, rfl⟩
  | cons op ops ih =>
      obtain ⟨hsaved, hstore⟩ := ih (saved_step f op)
      refine ⟨hsaved, hstore.trans ?_⟩
      rw [List.foldl_cons, ← apply_eq_latest h op]
      rfl

/-- So many characters of the new line are enough, or they stand for the old numbers or
the new ones all the same. -/
def SurvivesSave (before after : SeqNumStore) (written : ℕ) : Prop :=
  if written ≤ after.outStart then before = .reset ∨ after = .reset
  else after.outEnd ≤ written ∨ before = after.cut (after.outEnd - written)

/-- The condition on the numbers before a call, the call, and where it crashes. -/
def Survives (before : SeqNumStore) : SeqNumOp → CrashPoint → Prop
  | .setSeqNums inSeq outSeq, .inSave written => SurvivesSave before ⟨inSeq, outSeq⟩ written
  | .reset, .inSave written => SurvivesSave before .reset written
  | _, _ => True

theorem recovered_take_iff (before after : SeqNumStore) (written : ℕ) :
    (recovered (some (after.fileText.take written)) = before ∨
        recovered (some (after.fileText.take written)) = after) ↔
      SurvivesSave before after written := by
  rw [recovered_take, SurvivesSave]
  split_ifs with hstart
  · exact or_congr eq_comm eq_comm
  · rw [or_comm]
    refine or_congr ?_ eq_comm
    constructor
    · intro heq
      by_contra hend
      exact cut_ne (not_le.mp hstart) (not_le.mp hend) heq
    · intro hend
      rw [Nat.sub_eq_zero_of_le hend, cut_zero]

theorem recovered_crashed_iff (h : f.Saved) (op : SeqNumOp) (point : CrashPoint) :
    (recovered (f.crashed op point) = f.store ∨
        recovered (f.crashed op point) = (f.step op).store) ↔ Survives f.store op point := by
  cases point with
  | beforeSave =>
      refine iff_of_true (Or.inl h) ?_
      cases op <;> trivial
  | inSave written =>
      cases op with
      | setSeqNums inSeq outSeq => exact recovered_take_iff f.store ⟨inSeq, outSeq⟩ written
      | reset => exact recovered_take_iff f.store .reset written
      | reopen =>
          refine iff_of_true (Or.inl ?_) trivial
          rw [crashed]
          split_ifs with hsaves
          · have hstore := store_of_reopen_saves h hsaves
            rw [apply_eq_latest h, latest, hstore]
            exact recovered_take_reset written
          · exact h

/-- Whatever file there was and whatever has been done, a store made anew has the
numbers set last; after a crash it has the old or the new ones exactly if what had been
written is enough. -/
theorem survives_iff (content : Option Message) (ops : List SeqNumOp) :
    recovered (ops.foldl step (found content)).content =
        ops.foldl latest (recovered content) ∧
      ∀ op point,
        (recovered ((ops.foldl step (found content)).crashed op point) =
              ops.foldl latest (recovered content) ∨
            recovered ((ops.foldl step (found content)).crashed op point) =
              latest (ops.foldl latest (recovered content)) op) ↔
          Survives (ops.foldl latest (recovered content)) op point := by
  have hfound : (found content).Saved := rfl
  obtain ⟨hsaved, hstore⟩ := saved_run hfound ops
  have hstore : (ops.foldl step (found content)).store = ops.foldl latest (recovered content) :=
    hstore
  refine ⟨hsaved.trans hstore, fun op point => ?_⟩
  have hcrashed := recovered_crashed_iff hsaved op point
  have hlatest : ((ops.foldl step (found content)).step op).store = _ :=
    apply_eq_latest hsaved op
  rw [hlatest, hstore] at hcrashed
  exact hcrashed

/-- A crash on the way from 5 and 12 to 6 and 13: with an empty file the numbers start
again at 1, and with the line cut behind the 1 they are 6 and 1. -/
theorem numbers_lost :
    ¬(recovered ((step (found none) (.setSeqNums 5 12)).crashed (.setSeqNums 6 13)
          (.inSave 0)) = ⟨5, 12⟩ ∨
        recovered ((step (found none) (.setSeqNums 5 12)).crashed (.setSeqNums 6 13)
          (.inSave 0)) = ⟨6, 13⟩) ∧
      ¬(recovered ((step (found none) (.setSeqNums 5 12)).crashed (.setSeqNums 6 13)
          (.inSave 3)) = ⟨5, 12⟩ ∨
        recovered ((step (found none) (.setSeqNums 5 12)).crashed (.setSeqNums 6 13)
          (.inSave 3)) = ⟨6, 13⟩) := by
  decide +kernel

end SeqNumFile

end BetaTrader
