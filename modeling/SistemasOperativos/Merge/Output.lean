import SistemasOperativos.Merge.Numbers
import SistemasOperativos.Merge.Overflow
import SistemasOperativos.Merge.Parallel
import SistemasOperativos.Text.Format

/-!
# From text to text

Both programs from the text of the numbers to what they print of them. The prompts of
`merge_threads.c` are left out, and so is its option.
-/
namespace MergeOutput

open Text Threads.Cells Threads.Cells.Checked
open MergeInput (numbersOf comma)
open MergeThreads (sorted argList workers result)

/-! ## The programs -/

/-- The conversion of a `long` to an `int`. A number that is no `long`, where `strtol` gives
the bound of the range, is wrapped here like the others. -/
def atoi (text : List Byte) : ℤ := (atol text).bmod 4294967296

/-- The cells beyond the numbers are not the array's. -/
def array (numbers : List ℤ) : ℤ → ℤ := store (fun _ => 0) 0 numbers

/-- `printArray`. -/
def printArray (A : List ℤ) : List Byte := A.flatMap (fun v => sprintf "%d " [.d v]) ++ [newline]

/-- What `merge.c` prints. -/
def merge (ch2 : Vector Byte MergeInput.Merge.buff) (argv1 : List Byte) : Option (List Byte) := do
  let numbers ← MergeInput.Merge.main atoi ch2 argv1
  let sort := MergeSequential.mergeSort MergeSequential.int32 0 (numbers.size - 1) (Int.le_refl 0)
  match sort.run.run (array numbers.numbers) with
  | (some (), arr) =>
    some (sprintf "%s\n" [.s (cstring argv1)] ++ printArray (segment arr 0 numbers.size))
  | (none, _) => none

/-- What a thread returns. The buffer has no room for the last byte, which is the newline. -/
def threadMessage (tid : ℕ) (coreId : ℤ) : List Byte :=
  let message := utf8 "Thread " ++ decimal tid ++ sprintf " setted to CPU %d\n" [.d (coreId.tmod 4)]
  snprintf message.length message

/-- The loop that joins the threads, from the `i`-th on. -/
def joins (tids : ℕ → ℕ) : ℕ → ℕ → List Byte
  | _, 0 => []
  | i, n + 1 => sprintf "%s\n" [.s (cstring (threadMessage (tids i) i))] ++ joins tids (i + 1) n

/-- One of the lines with the array. -/
def printLine (title : String) (A : List ℤ) : List Byte :=
  utf8 title ++ A.flatMap fun v => sprintf " %d" [.d v]

/-- What `merge_threads.c` prints after its prompts, where the threads have left `x`. -/
def mergeThreads (numbers : List ℤ) (numberThreads : ℕ) (tids : ℕ → ℕ)
    (x : Pool (Fin (argList numbers.length numberThreads).length) ℤ Int Unit) : List Byte :=
  printLine "Initial array:" numbers ++ [newline] ++ joins tids 0 numberThreads ++
    printLine "\nShorted array:" (result numbers.length _ x) ++ [newline]

/-! ## The text of the numbers -/

/-- The numbers between commas. -/
def commas (vs : List ℤ) : List Byte := [comma].intercalate (vs.map ld)

variable {vs : List ℤ} {v : ℤ}

theorem commas_cons (v : ℤ) (h : vs ≠ []) : commas (v :: vs) = ld v ++ comma :: commas vs := by
  cases vs with
  | nil => exact (h rfl).elim
  | cons v' vs => simp [commas]

/-- A number is digits, after a sign perhaps. -/
theorem mem_ld {c : Byte} (h : c ∈ ld v) : c = minus ∨ isDigit c = true := by
  unfold ld at h
  split at h
  · rcases List.mem_cons.mp h with h | h
    · exact Or.inl h
    · exact Or.inr (isDigit_decimal h)
  · exact Or.inr (isDigit_decimal h)

theorem mem_commas {c : Byte} (h : c ∈ commas vs) : c = comma ∨ c = minus ∨ isDigit c = true := by
  induction vs with
  | nil => cases h
  | cons v vs ih =>
    by_cases hvs : vs = []
    · subst hvs
      have hld : c ∈ ld v := by simpa [commas] using h
      exact Or.inr (mem_ld hld)
    · rw [commas_cons v hvs, List.mem_append, List.mem_cons] at h
      rcases h with h | h | h
      · exact Or.inr (mem_ld h)
      · exact Or.inl h
      · exact ih h

theorem tokens_commas : tokens [comma].contains (commas vs) = vs.map ld := by
  have hword : ∀ v, ∀ c ∈ ld v, [comma].contains c = false := by
    intro v
    apply contains_of_not_mem
    intro hmem
    rcases mem_ld hmem with h | h <;> cases h
  have hne : ∀ v, ld v ≠ [] := by
    intro v
    unfold ld
    split
    · simp
    · exact decimal_ne_nil _
  induction vs with
  | nil => rfl
  | cons v vs ih =>
    by_cases hvs : vs = []
    · subst hvs
      simpa [commas] using tokens_word (hword v) (hne v)
    · rw [commas_cons v hvs, tokens_append_cons (by decide), ih, tokens_word (hword v) (hne v)]
      rfl

theorem atoi_ld (h : IsInt v) : atoi (ld v) = v := by
  obtain ⟨hmin, hmax⟩ := h
  rw [atoi, atol_ld, Int.bmod]
  split <;> omega

theorem numbersOf_commas (h : ∀ v ∈ vs, IsInt v) : numbersOf atoi (commas vs) = vs := by
  rw [numbersOf, tokens_commas, List.map_map]
  have hmap : vs.map (atoi ∘ ld) = vs.map id := by
    apply List.map_congr_left
    intro v hv
    exact atoi_ld (h v hv)
  rw [hmap, List.map_id]

/-! ## What is printed -/

variable {text : List Byte}

theorem segment_array (numbers : List ℤ) : segment (array numbers) 0 numbers.length = numbers :=
  segment_store

/-- The sums of the indices of so few numbers are in range. -/
theorem mergeSort_array {numbers : List ℤ} (h : numbers.length ≤ 20000) :
    Does (MergeSequential.mergeSort MergeSequential.int32 0 (numbers.length - 1) (Int.le_refl 0))
      (array numbers) () (store (array numbers) 0 (sorted numbers)) := by
  have hn : ((numbers.length - 1 : ℤ) - 0 + 1).toNat = numbers.length := by omega
  have hstore : store (array numbers) 0 (sorted numbers) = store (array numbers) 0
      (sorted (segment (array numbers) 0 ((numbers.length - 1 : ℤ) - 0 + 1).toNat)) := by
    rw [hn, segment_array]
  rw [hstore]
  apply MergeSequential.mergeSort_does MergeSequential.within_int32 (Int.le_refl 0) (by omega)
  intro l r h1 h2 h3
  have hrange : -2 ^ 31 ≤ l + r ∧ l + r ≤ 2 ^ 31 - 1 := by omega
  exact MergeSequential.int32_eq_true.mpr hrange

/-- Any text that fits, with whatever is between its commas. -/
theorem merge_prints (ch2 : Vector Byte MergeInput.Merge.buff) (h0 : 0 ∉ text)
    (hlen : text.length < MergeInput.Merge.buff) :
    merge ch2 (text ++ [0]) =
      some (text ++ [newline] ++ printArray (sorted (numbersOf atoi text))) := by
  have hread : MergeInput.Merge.main atoi ch2 (text ++ [0]) = some (.full (numbersOf atoi text)) :=
    MergeInput.Merge.main_spec h0 hlen
  have hcount : (numbersOf atoi text).length ≤ text.length := by
    rw [numbersOf, List.length_map]
    exact length_tokens_le _ text
  have hbuff : MergeInput.Merge.buff = 20000 := rfl
  have hline : sprintf "%s\n" [.s (cstring (text ++ [0]))] = text ++ [newline] := by
    rw [cstring_of_zero h0]
    rfl
  have hsort : Does (MergeSequential.mergeSort MergeSequential.int32 0
      ((numbersOf atoi text).length - 1) (Int.le_refl 0)) (array (numbersOf atoi text)) ()
      (store (array (numbersOf atoi text)) 0 (sorted (numbersOf atoi text))) :=
    mergeSort_array (by omega)
  have hcells : segment (store (array (numbersOf atoi text)) 0 (sorted (numbersOf atoi text))) 0
      (numbersOf atoi text).length = sorted (numbersOf atoi text) :=
    segment_store_of_length (by simp)
  unfold merge
  rw [hread]
  simp only [Option.bind_eq_bind, Option.bind_some, MergeInput.Numbers.full]
  rw [hsort]
  dsimp only
  rw [hcells, hline]

variable {numberThreads : ℕ} {tids : ℕ → ℕ}

/-- The threads have joined, in whatever order they worked. -/
theorem mergeThreads_prints {numbers : List ℤ} (hT : 0 < numberThreads)
    {tr : List (Fin (argList numbers.length numberThreads).length)}
    {x : Pool (Fin (argList numbers.length numberThreads).length) ℤ Int Unit}
    (hr : Run (workers (argList numbers.length numberThreads) (array numbers)) tr x)
    (hj : x.Joined) : mergeThreads numbers numberThreads tids x =
      printLine "Initial array:" numbers ++ [newline] ++ joins tids 0 numberThreads ++
        printLine "\nShorted array:" (sorted numbers) ++ [newline] := by
  have hsorted := MergeThreads.finish_sorted (MergeThreads.argList_tiles numbers.length hT) hr hj
  have hn : ((numbers.length : ℤ) - 0).toNat = numbers.length := by omega
  rw [hn, segment_array] at hsorted
  unfold mergeThreads result
  rw [hsorted]

/-- From the numbers as they are typed to the numbers as they are printed: both programs read
all of them, and print them in order, whatever number of threads there is and whatever the order
of their accesses. -/
theorem typed_numbers_sorted (hne : vs ≠ []) (hvs : ∀ v ∈ vs, IsInt v)
    (hlen : (commas vs).length ≤ 198) (ch2 : Vector Byte MergeInput.Merge.buff)
    (ch copy : Vector Byte MergeInput.Threads.buff) (blank : ℕ) (stdin : List Byte)
    (numberThreads : ℕ) (hT : 0 < numberThreads) (tids : ℕ → ℕ) :
    merge ch2 (commas vs ++ [0]) =
      some (commas vs ++ [newline] ++ printArray (sorted vs)) ∧
    MergeInput.Threads.main atoi ch copy
      (List.replicate blank newline ++ (commas vs ++ newline :: stdin)) = some (.full vs) ∧
    ∀ tr x, Run (workers (argList vs.length numberThreads) (array vs)) tr x → x.Joined →
      mergeThreads vs numberThreads tids x =
        printLine "Initial array:" vs ++ [newline] ++ joins tids 0 numberThreads ++
          printLine "\nShorted array:" (sorted vs) ++ [newline] := by
  have hnot : ∀ c, c ≠ comma → c ≠ minus → isDigit c = false → c ∉ commas vs := by
    intro c h1 h2 h3 hmem
    rcases mem_commas hmem with h | h | h
    · exact h1 h
    · exact h2 h
    · exact Bool.false_ne_true (h3.symm.trans h)
  have h0 : 0 ∉ commas vs := hnot 0 (by decide) (by decide) rfl
  have hnl : newline ∉ commas vs := hnot newline (by decide) (by decide) rfl
  have hpos : commas vs ≠ [] := by
    intro hnil
    have htokens : tokens [comma].contains (commas vs) = vs.map ld := tokens_commas
    rw [hnil, tokens_nil] at htokens
    exact hne (List.map_eq_nil_iff.mp htokens.symm)
  have hmerge : MergeInput.Merge.buff = 20000 := rfl
  have hthreads : MergeInput.Threads.buff = 200 := rfl
  refine ⟨?_, ?_, ?_⟩
  · have hprint := merge_prints ch2 h0 (by omega)
    rwa [numbersOf_commas hvs] at hprint
  · have hread : MergeInput.Threads.main atoi ch copy
        (List.replicate blank newline ++ (commas vs ++ newline :: stdin)) =
          some (.full (numbersOf atoi (commas vs))) :=
      MergeInput.Threads.inputLoop_spec hpos hnl h0 (by omega) blank Vector.length_toList stdin
    rw [numbersOf_commas hvs] at hread
    exact hread
  · intro tr x hr hj
    exact mergeThreads_prints hT hr hj

/-- `3,-1,2` on two threads. -/
theorem typed_numbers_sorted_three : merge (.replicate _ 0) (commas [3, -1, 2] ++ [0]) =
      some (commas [3, -1, 2] ++ [newline] ++ printArray [-1, 2, 3]) ∧
    ∃ tr x, Run (workers (argList 3 2) (array [3, -1, 2])) tr x ∧
      mergeThreads [3, -1, 2] 2 id x = printLine "Initial array:" [3, -1, 2] ++ [newline] ++
        joins id 0 2 ++ printLine "\nShorted array:" [-1, 2, 3] ++ [newline] := by
  have hint : ∀ v ∈ [3, -1, 2], IsInt v := by decide
  have hlen : (commas [3, -1, 2]).length ≤ 198 := by
    simp [commas, ld, decimal, List.intercalate]
  have hsorted : sorted [3, -1, 2] = [-1, 2, 3] := by
    apply Eq.symm
    exact MergeThreads.eq_sorted (by decide) (by decide)
  obtain ⟨hmerge, -, hthreads⟩ := typed_numbers_sorted (by decide) hint hlen
    (.replicate _ 0) (.replicate _ 0) (.replicate _ 0) 0 [] 2 (by decide) id
  rw [hsorted] at hmerge
  have htiles := MergeThreads.argList_tiles 3 (by decide : 0 < 2)
  obtain ⟨tr, x, hr, hj⟩ := exists_joined (MergeThreads.workers_confined _ (array [3, -1, 2]))
    (MergeThreads.owns_disjoint htiles) .nil
  refine ⟨hmerge, _, x, hr, ?_⟩
  have hprint := hthreads _ x hr hj
  rwa [hsorted] at hprint

end MergeOutput
