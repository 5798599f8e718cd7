import Commission.Common
import Commission.Library.FromChars
import Mathlib.Logic.Function.Basic

/-! The text of the output file. Every process which opens it adds an empty line and then a line
for each output. -/
namespace Commission.Host

open FromChars PrefixCode

/-- `"%" PRIi64 " %" PRIi32 " %" PRIi32 " %" PRIi32 "\n"` -/
def outputLine (output : CpuOutput) : List Char :=
  (decimal output.seed.toInt ++ [' ']) ++ ((decimal output.x.toInt ++ [' ']) ++
    ((decimal output.z.toInt ++ [' ']) ++ (decimal output.score.toInt ++ ['\n'])))

/-- What one process adds. -/
def processText (outputs : List CpuOutput) : List Char := '\n' :: outputs.flatMap outputLine

/-- A file which several processes have opened for appending, one after the other. -/
def fileText (processes : List (List CpuOutput)) : List Char := processes.flatMap processText

/-- The numbers of a line. -/
def fields (output : CpuOutput) : ℤ × ℤ × ℤ × ℤ :=
  (output.seed.toInt, output.x.toInt, output.z.toInt, output.score.toInt)

theorem fields_injective : Function.Injective fields := by
  intro output output' hSame
  obtain ⟨hSeed, hX, hZ, hScore⟩ := by simpa only [fields, Prod.mk.injEq] using hSame
  cases output
  cases output'
  simp only [CpuOutput.mk.injEq]
  exact ⟨BitVec.eq_of_toInt_eq hSeed, BitVec.eq_of_toInt_eq hX, BitVec.eq_of_toInt_eq hZ,
    BitVec.eq_of_toInt_eq hScore⟩

theorem outputLine_prefixFree : PrefixFree outputLine := by
  have hSpace : ' '.isDigit = false := by decide
  have hBreak : '\n'.isDigit = false := by decide
  have hNumbers := (decimal_prefixFree hSpace).append ((decimal_prefixFree hSpace).append
    ((decimal_prefixFree hSpace).append (decimal_prefixFree hBreak)))
  intro output output' rest rest' hSame
  rw [outputLine, outputLine] at hSame
  obtain ⟨hFields, hRest⟩ := hNumbers (fields output) (fields output') rest rest' hSame
  exact ⟨fields_injective hFields, hRest⟩

/-- A line is not empty. -/
theorem head?_outputLine (output : CpuOutput) : (outputLine output).head? ≠ some '\n' := by
  have hSeed := numeral_decimal output.seed.toInt
  rw [outputLine, List.append_assoc, List.head?_append_of_ne_nil _ hSeed.ne_nil]
  exact hSeed.head?_ne (by decide) (by decide)

theorem outputLine_ne_nil (output : CpuOutput) : outputLine output ≠ [] := by
  have hSeed := numeral_decimal output.seed.toInt
  rw [outputLine, List.append_assoc]
  exact List.append_ne_nil_of_left_ne_nil hSeed.ne_nil _

/-- The empty lines as words of their own. -/
theorem fileText_eq (processes : List (List CpuOutput)) :
    fileText processes = (marked processes).flatMap fun o => o.elim ['\n'] outputLine := by
  rw [fileText, marked, List.flatMap_assoc]
  refine List.flatMap_congr fun outputs _ => ?_
  rw [List.flatMap_cons, List.flatMap_map]
  rfl

/-- The file tells which processes have written it and what each of them has found, in order. -/
theorem fileText_injective : Function.Injective fileText := by
  intro processes processes' hSame
  rw [fileText_eq, fileText_eq] at hSame
  have hCode := outputLine_prefixFree.option outputLine_ne_nil head?_outputLine
  refine marked_injective (hCode.flatMap_injective (fun o => ?_) hSame)
  cases o with
  | none => exact List.cons_ne_nil _ _
  | some output => exact outputLine_ne_nil output

end Commission.Host
