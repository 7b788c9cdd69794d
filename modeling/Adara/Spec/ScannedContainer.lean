import Adara.Native.ScannedContainer
import Adara.Spec.AutoSave

/-! # Names of files that are imported again

The name of a data file that fits into its buffer is scanned to the numbers it was made of
(`importNumbers_fileName`). -/

namespace Adara.Spec.ScannedContainer

open Adara.Native

/-! ### Conversions -/

theorem takeWhile_digits {ds rest : List Char} (hds : ∀ c ∈ ds, c.isDigit = true)
    (hrest : ∀ c ∈ rest.head?, c.isDigit = false) :
    (ds ++ rest).takeWhile (·.isDigit) = ds := by
  rw [List.takeWhile_append_of_pos hds]
  cases rest with
  | nil => simp
  | cons c rest =>
    have hc : c.isDigit = false := hrest c rfl
    simp [hc]

theorem foldl_digits (ds : List Char) :
    ds.foldl (fun n c => 10 * n + (c.toNat - '0'.toNat)) 0 = Nat.ofDigitChars 10 ds 0 :=
  Nat.ofDigitChars_eq_foldl.symm

/-- Digits are scanned up to what is none. -/
theorem scanUnsigned_digits {ds rest : List Char} (hne : ds ≠ [])
    (hds : ∀ c ∈ ds, c.isDigit = true) (hrest : ∀ c ∈ rest.head?, c.isDigit = false)
    (hlt : Nat.ofDigitChars 10 ds 0 < 2 ^ 32) :
    scanUnsigned (ds ++ rest) = some (Nat.ofDigitChars 10 ds 0, rest) := by
  obtain ⟨d, ds, rfl⟩ := List.exists_cons_of_ne_nil hne
  have hd := hds d List.mem_cons_self
  have hspace := isSpace_of_isDigit hd
  have hminus : d ≠ '-' := by rintro rfl; cases hd
  have hplus : d ≠ '+' := by rintro rfl; cases hd
  have htake := takeWhile_digits hds hrest
  have hstart : (d :: (ds ++ rest)).dropWhile isSpace = d :: (ds ++ rest) := by
    rw [List.dropWhile_cons, hspace]
    rfl
  rw [List.cons_append] at htake ⊢
  unfold scanUnsigned
  rw [hstart]
  dsimp only
  split
  · next heq => exact absurd (List.cons.inj heq).1 hminus
  · next heq => exact absurd (List.cons.inj heq).1 hplus
  · rw [htake, foldl_digits, List.isEmpty_cons, if_neg Bool.false_ne_true, if_neg (by omega),
      if_neg Bool.false_ne_true, Nat.mod_eq_of_lt hlt]
    simp

/-- The digits of a number, with zeros in front of them. -/
theorem scanUnsigned_padded {n : Nat} {rest : List Char} (hn : n < 2 ^ 32)
    (hrest : ∀ c ∈ rest.head?, c.isDigit = false) :
    scanUnsigned (paddedNumber n ++ rest) = some (n, rest) := by
  have hvalue : Nat.ofDigitChars 10 (paddedNumber n) 0 = n := by
    rw [paddedNumber, Nat.ofDigitChars_append, Nat.ofDigitChars_replicate_zero, Nat.mul_zero,
      Nat.ofDigitChars_ten_toDigits]
  have hdigits : ∀ c ∈ paddedNumber n, c.isDigit = true := by
    intro c hc
    rcases List.mem_append.mp hc with hc | hc
    · rw [List.eq_of_mem_replicate hc]
      decide
    · exact AutoSave.isDigit_toDigits n c hc
  have hne : paddedNumber n ≠ [] := fun hnil =>
    AutoSave.toDigits_ne_nil n (List.append_eq_nil_iff.mp hnil).2
  have hscan := scanUnsigned_digits hne hdigits hrest (hvalue.symm ▸ hn)
  rwa [hvalue] at hscan

theorem scanUnsigned_toDigits {n : Nat} {rest : List Char} (hn : n < 2 ^ 32)
    (hrest : ∀ c ∈ rest.head?, c.isDigit = false) :
    scanUnsigned (Nat.toDigits 10 n ++ rest) = some (n, rest) := by
  have hvalue : Nat.ofDigitChars 10 (Nat.toDigits 10 n) 0 = n := Nat.ofDigitChars_ten_toDigits
  have hscan := scanUnsigned_digits (AutoSave.toDigits_ne_nil n) (AutoSave.isDigit_toDigits n) hrest
    (hvalue.symm ▸ hn)
  rwa [hvalue] at hscan

/-! ### Formats -/

/-- A conversion finds its text, and a number behind it. -/
theorem scan_cons {text : String} {field : NameField} {format : NameFormat} {cs rest : List Char}
    {n : Nat} (hscan : scanUnsigned cs = some (n, rest)) :
    NameFormat.scan ((text, field) :: format) (text.toList ++ cs) =
      (format.scan rest).map ((field, n) :: ·) := by
  have hpre : text.toList.isPrefixOf (text.toList ++ cs) = true :=
    List.isPrefixOf_iff_prefix.mpr (List.prefix_append _ _)
  have hdrop : (text.toList ++ cs).drop text.length = cs := by
    rw [← String.length_toList]
    exact List.drop_left
  rw [NameFormat.scan, if_pos hpre, hdrop, hscan]

/-- Its text is not there. -/
theorem scan_of_not_prefix {text : String} {field : NameField} {format : NameFormat}
    {cs : List Char} (h : text.toList.isPrefixOf cs = false) :
    NameFormat.scan ((text, field) :: format) cs = none := by
  rw [NameFormat.scan, if_neg (Bool.eq_false_iff.mp h)]

/-! ### Names -/

/-- The numbers of a data file as the container makes them. -/
structure Proper (f : FileNumbers) : Prop where
  fileNumber : f.fileNumber ≠ 0
  paused : f.paused = true → f.pauseFileNumber ≠ 0
  running : f.paused = false → f.pauseFileNumber = 0

/-- The numbers have 32 bits, and the name fits into its buffer. -/
structure Nameable (f : FileNumbers) : Prop where
  modeNumber : f.modeNumber < 2 ^ 32
  fileNumber : f.fileNumber < 2 ^ 32
  pauseFileNumber : f.pauseFileNumber < 2 ^ 32
  fits : (nameText false f).length < 32

/-- What comes behind the file number. -/
def nameEnd (runNumber : Nat) (f : FileNumbers) : List Char :=
  (if f.paused then "-p".toList ++ paddedNumber f.pauseFileNumber else []) ++
    ((if runNumber ≠ 0 then "-run-".toList ++ Nat.toDigits 10 runNumber else []) ++
      ".adara".toList)

theorem runPostfix_eq {runNumber : Nat} (h : runNumber < 2 ^ 32) :
    runPostfix runNumber =
      if runNumber ≠ 0 then "-run-".toList ++ Nat.toDigits 10 runNumber else [] := by
  rw [runPostfix]
  split
  · apply List.take_of_length_le
    have hdigits : (Nat.toDigits 10 runNumber).length ≤ 10 :=
      (Nat.length_toDigits_le_iff (by decide) (by decide)).mpr (by omega)
    have htext : "-run-".toList.length = 5 := by decide
    rw [List.length_append]
    omega
  · rfl

/-- A name that fits is not cut off. -/
theorem fileName_eq {runNumber : Nat} {f : FileNumbers} (hf : Nameable f)
    (hrun : runNumber < 2 ^ 32) :
    fileName false runNumber f = "m".toList ++ (paddedNumber f.modeNumber ++
      ("-f".toList ++ (paddedNumber f.fileNumber ++ nameEnd runNumber f))) := by
  have htext : snprintf 32 (nameText false f) = nameText false f :=
    List.take_of_length_le (by have := hf.fits; omega)
  have hslash : "/m".toList = '/' :: "m".toList := by decide
  rw [fileName, htext, runPostfix_eq hrun, nameEnd, nameText, if_neg Bool.false_ne_true, hslash]
  split
  · simp only [List.append_assoc, List.cons_append, List.tail_cons]
  · simp only [List.append_assoc, List.cons_append, List.tail_cons, List.nil_append]

theorem nameEnd_head (runNumber : Nat) (f : FileNumbers) :
    ∀ c ∈ (nameEnd runNumber f).head?, c.isDigit = false := by
  have hpause : "-p".toList = ['-', 'p'] := by decide
  have hrun : "-run-".toList = ['-', 'r', 'u', 'n', '-'] := by decide
  have hend : ".adara".toList = ['.', 'a', 'd', 'a', 'r', 'a'] := by decide
  intro c hc
  rw [nameEnd, hpause, hrun, hend] at hc
  split at hc
  · obtain rfl : '-' = c := Option.some.inj hc
    decide
  · split at hc
    · obtain rfl : '-' = c := Option.some.inj hc
      decide
    · obtain rfl : '.' = c := Option.some.inj hc
      decide

/-- A format with a mode and a file number goes on behind them. -/
theorem scan_modeFile {a b : Nat} {tail : List Char} (format : NameFormat) (ha : a < 2 ^ 32)
    (hb : b < 2 ^ 32) (htail : ∀ c ∈ tail.head?, c.isDigit = false) :
    NameFormat.scan (("m", .mode) :: ("-f", .file) :: format)
        ("m".toList ++ (paddedNumber a ++ ("-f".toList ++ (paddedNumber b ++ tail)))) =
      (format.scan tail).map fun vs => (.mode, a) :: (.file, b) :: vs := by
  have hdash : ∀ c ∈ ("-f".toList ++ (paddedNumber b ++ tail)).head?, c.isDigit = false := by
    intro c hc
    have htext : "-f".toList = ['-', 'f'] := by decide
    rw [htext] at hc
    obtain rfl : '-' = c := Option.some.inj hc
    decide
  rw [scan_cons (scanUnsigned_padded ha hdash), scan_cons (scanUnsigned_padded hb htail),
    Option.map_map]
  rfl

/-- A format of another kind does not go on. -/
theorem scan_of_first {text : String} {field : NameField} {format : NameFormat} {c : Char}
    {cs : List Char} (htext : text.toList = c :: cs) (hc : c ≠ 'm') (rest : List Char) :
    NameFormat.scan ((text, field) :: format) ("m".toList ++ rest) = none := by
  apply scan_of_not_prefix
  have hm : "m".toList = ['m'] := by decide
  rw [htext, hm, List.singleton_append, List.isPrefixOf]
  simp [hc]

/-- The formats that can be of a file with a mode number are tried in this order. -/
theorem findSome_nameFormats {rest : List Char} :
    (nameFormats.findSome? fun (saved, format) =>
        (format.scan ("m".toList ++ rest)).map (saved, ·)) =
      ([[("m", .mode), ("-f", .file), ("-p", .pause), ("-run-", .run)],
        [("m", .mode), ("-f", .file), ("-p", .pause)],
        [("m", .mode), ("-f", .file), ("-add", .addendum), ("-run-", .run)],
        [("m", .mode), ("-f", .file), ("-run-", .run)],
        [("m", NameField.mode), ("-f", .file)]].findSome? fun format =>
          (NameFormat.scan format ("m".toList ++ rest)).map (false, ·)) := by
  have hf : "f".toList = ['f'] := by decide
  have hds : "ds".toList = ['d', 's'] := by decide
  have hprologueDs : "prologue-ds".toList = 'p' :: "rologue-ds".toList := by decide
  have hprologueM : "prologue-m".toList = 'p' :: "rologue-m".toList := by decide
  simp only [nameFormats, List.findSome?_cons, List.findSome?_nil,
    scan_of_first hf (by decide), scan_of_first hds (by decide),
    scan_of_first hprologueDs (by decide), scan_of_first hprologueM (by decide), Option.map_none]

/-- The values that the name of a data file has. -/
def nameValues (runNumber : Nat) (f : FileNumbers) : List (NameField × Nat) :=
  (.mode, f.modeNumber) :: (.file, f.fileNumber) ::
    ((if f.paused then [(.pause, f.pauseFileNumber)] else []) ++
      if runNumber ≠ 0 then [(.run, runNumber)] else [])

/-- What comes behind the file number is read by the first format that can be of the file. -/
theorem findSome_nameEnd {runNumber : Nat} {f : FileNumbers} (hf : Nameable f)
    (hrun : runNumber < 2 ^ 32) (add : List (NameField × Nat) → Bool × List (NameField × Nat)) :
    ([[("-p", .pause), ("-run-", .run)], [("-p", .pause)], [("-add", .addendum), ("-run-", .run)],
        [("-run-", .run)], []].findSome? fun format : NameFormat =>
          (format.scan (nameEnd runNumber f)).map add) =
      some (add ((if f.paused then [(.pause, f.pauseFileNumber)] else []) ++
        if runNumber ≠ 0 then [(.run, runNumber)] else [])) := by
  have hend : ".adara".toList = ['.', 'a', 'd', 'a', 'r', 'a'] := by decide
  have hdot : ∀ c ∈ ".adara".toList.head?, c.isDigit = false := by
    intro c hc
    rw [hend] at hc
    obtain rfl : '.' = c := Option.some.inj hc
    decide
  have hpause : "-p".toList = ['-', 'p'] := by decide
  have hruns : "-run-".toList = ['-', 'r', 'u', 'n', '-'] := by decide
  have hadd : "-add".toList = ['-', 'a', 'd', 'd'] := by decide
  have hdash : ∀ rest, ∀ c ∈ ("-run-".toList ++ rest).head?, c.isDigit = false := by
    intro rest c hc
    rw [hruns] at hc
    obtain rfl : '-' = c := Option.some.inj hc
    decide
  have hnumber : ∀ field, NameFormat.scan [("-run-", field)]
      ("-run-".toList ++ (Nat.toDigits 10 runNumber ++ ".adara".toList)) =
        some [(field, runNumber)] :=
    fun _ => scan_cons (scanUnsigned_toDigits hrun hdot)
  -- the formats are tried in this order, so that those before the one that fits have to fail
  cases hpaused : f.paused with
  | true =>
    by_cases hzero : runNumber = 0
    · have htail : nameEnd runNumber f =
          "-p".toList ++ (paddedNumber f.pauseFileNumber ++ ".adara".toList) := by
        simp [nameEnd, hpaused, hzero]
      have hscan := scanUnsigned_padded hf.pauseFileNumber hdot
      -- the first format finds the pause number but no run behind it, and the second finds the
      -- same number
      have hnone : NameFormat.scan [("-run-", .run)] ".adara".toList = none :=
        scan_of_not_prefix (by rw [hruns, hend]; decide)
      rw [htail, List.findSome?_cons, scan_cons hscan, hnone, List.findSome?_cons, scan_cons hscan]
      simp [NameFormat.scan, hzero]
    · have htail : nameEnd runNumber f = "-p".toList ++ (paddedNumber f.pauseFileNumber ++
          ("-run-".toList ++ (Nat.toDigits 10 runNumber ++ ".adara".toList))) := by
        simp [nameEnd, hpaused, hzero]
      rw [htail, List.findSome?_cons,
        scan_cons (scanUnsigned_padded hf.pauseFileNumber (hdash _)), hnumber]
      simp [hzero]
  | false =>
    by_cases hzero : runNumber = 0
    · have htail : nameEnd runNumber f = ".adara".toList := by
        simp [nameEnd, hpaused, hzero]
      -- every format with a field starts with a dash, and the text with a dot
      have hnone : ∀ {text : String} {field : NameField} {format : NameFormat} {cs : List Char},
          text.toList = '-' :: cs →
            NameFormat.scan ((text, field) :: format) ".adara".toList = none := by
        intro text field format cs htext
        exact scan_of_not_prefix (by rw [htext, hend]; rfl)
      have hnil : NameFormat.scan [] ".adara".toList = some [] := rfl
      rw [htail]
      simp only [List.findSome?_cons, hnone hpause, hnone hruns, hnone hadd, hnil, Option.map_none]
      simp [hzero]
    · have htail : nameEnd runNumber f =
          "-run-".toList ++ (Nat.toDigits 10 runNumber ++ ".adara".toList) := by
        simp [nameEnd, hpaused, hzero]
      -- the formats before that of a run differ from it behind the dash
      have hnone : ∀ {text : String} {field : NameField} {format : NameFormat} {c : Char}
          {cs : List Char}, text.toList = '-' :: c :: cs → c ≠ 'r' →
            NameFormat.scan ((text, field) :: format) (nameEnd runNumber f) = none := by
        intro text field format c cs htext hc
        apply scan_of_not_prefix
        rw [htail, htext, hruns]
        simp [List.isPrefixOf, hc]
      simp only [List.findSome?_cons, hnone hpause (by decide), hnone hadd (by decide),
        Option.map_none]
      rw [htail, hnumber]
      simp [hzero]

/-- The name of a data file is scanned to its numbers. -/
theorem scan_fileName {runNumber : Nat} {f : FileNumbers} (hf : Nameable f)
    (hrun : runNumber < 2 ^ 32) :
    (nameFormats.findSome? fun (saved, format) =>
        (format.scan (fileName false runNumber f)).map (saved, ·)) =
      some (false, nameValues runNumber f) := by
  have hend := nameEnd_head runNumber f
  have hscan := fun format => scan_modeFile format hf.modeNumber hf.fileNumber hend
  rw [fileName_eq hf hrun, findSome_nameFormats]
  simp only [List.findSome?_cons, List.findSome?_nil, hscan, Option.map_map]
  have htail := findSome_nameEnd hf hrun fun vs =>
    (false, (.mode, f.modeNumber) :: (.file, f.fileNumber) :: vs)
  simp only [List.findSome?_cons, List.findSome?_nil] at htail
  exact htail

/-! ### Imports -/

/-- All files can be read. -/
def allReadable : Fails := fun _ => false

/-- A data file on the disk. -/
def onDisk (daily container : String) (runNumber : Nat) (size : FileNumbers → Nat)
    (f : FileNumbers) : DiskFile :=
  ⟨daily, container, String.ofList (fileName false runNumber f), size f⟩

/-- It is imported with the numbers it was made with. -/
def asScanned (size : FileNumbers → Nat) (f : FileNumbers) : ScannedFile :=
  { f with addendum := false, addendumFileNumber := 0, size := size f }

theorem lookup_pause (runNumber : Nat) (f : FileNumbers) :
    (nameValues runNumber f).lookup .pause =
      if f.paused then some f.pauseFileNumber else none := by
  rw [nameValues]
  by_cases hrun : runNumber ≠ 0
  · rw [if_pos hrun]
    cases f.paused <;> rfl
  · rw [if_neg hrun]
    cases f.paused <;> rfl

theorem lookup_addendum (runNumber : Nat) (f : FileNumbers) :
    (nameValues runNumber f).lookup .addendum = none := by
  rw [nameValues]
  by_cases hrun : runNumber ≠ 0
  · rw [if_pos hrun]
    cases f.paused <;> rfl
  · rw [if_neg hrun]
    cases f.paused <;> rfl

theorem lookup_run (runNumber : Nat) (f : FileNumbers) :
    ((nameValues runNumber f).lookup .run).getD 0 = runNumber := by
  rw [nameValues]
  by_cases hzero : runNumber = 0
  · rw [if_neg (not_not.mpr hzero), hzero]
    cases f.paused <;> rfl
  · rw [if_pos hzero]
    cases f.paused <;> rfl

/-- A file that has its numbers in its name is imported with them. -/
theorem importNumbers_fileName {daily container : String} {runNumber : Nat}
    {size : FileNumbers → Nat} {f : FileNumbers} (hf : Nameable f) (hproper : Proper f)
    (hrun : runNumber < 2 ^ 32) :
    importNumbers allReadable runNumber (onDisk daily container runNumber size f) =
      some (asScanned size f) := by
  have hscan := scan_fileName hf hrun
  have hname : (onDisk daily container runNumber size f).name.toList = fileName false runNumber f :=
    String.toList_ofList
  have hvalues : (nameFormats.findSome? fun (_, format) =>
      format.scan (onDisk daily container runNumber size f).name.toList) =
        some (nameValues runNumber f) := by
    have hsnd := congrArg (Option.map Prod.snd) hscan
    rw [List.map_findSome?] at hsnd
    rw [hname, ← Option.map_some (f := Prod.snd) (a := (false, nameValues runNumber f)), ← hsnd]
    congr 1
    funext x
    simp [Function.comp_def]
  have hmode : (nameValues runNumber f).lookup .mode = some f.modeNumber := rfl
  have hfile : (nameValues runNumber f).lookup .file = some f.fileNumber := rfl
  have hpause : (nameValues runNumber f).lookup .pause ≠ some 0 := by
    rw [lookup_pause]
    split
    · next hpaused => exact fun heq => hproper.paused hpaused (Option.some.inj heq)
    · nofun
  have hdata : importFile allReadable runNumber (onDisk daily container runNumber size f) = .data := by
    simp only [importFile, hname, hscan, lookup_addendum, hfile, lookup_run, Option.some.injEq]
    simp [hproper.fileNumber, hpause, allReadable]
  rw [importNumbers, if_pos hdata, hvalues]
  simp only [Option.map_some, hmode, hfile, lookup_pause, lookup_addendum, asScanned]
  obtain ⟨modeNumber, fileNumber, pauseFileNumber, paused⟩ := f
  cases paused with
  | true => rfl
  | false =>
    obtain rfl : pauseFileNumber = 0 := hproper.running rfl
    rfl

end Adara.Spec.ScannedContainer
