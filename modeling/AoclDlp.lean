import AoclDlp.Api.AcceptedBlocks
import AoclDlp.Api.BatchGemm
import AoclDlp.Api.Bf16Reorder
import AoclDlp.Api.Normalisation
import AoclDlp.Api.ReorderSize
import AoclDlp.DecisionEngine.BusiestThread
import AoclDlp.DecisionEngine.ConvertingReorder
import AoclDlp.DecisionEngine.ServedBatches
import AoclDlp.Foundations.Exits
import AoclDlp.Gemm.EndToEnd
import AoclDlp.Gemm.FallbackBuffer
import AoclDlp.Gemm.TinyRun
import AoclDlp.Jit.PackBExecute
import AoclDlp.Jit.S8Product
import AoclDlp.KernelRegister.TableMap
import AoclDlp.Layout.Bf16Fallback
import AoclDlp.Layout.S8s8s32
import AoclDlp.Layout.TunedBf16
import AoclDlp.PostOps.KernelOps
import AoclDlp.Quant.BetaSpecialisation
import AoclDlp.Quant.Bf16s4Frame
import AoclDlp.Quant.Bf16s4Reorder
import AoclDlp.Quant.HintedPanel
import AoclDlp.Quant.S4Frame
import AoclDlp.Quant.ShortTeam
import AoclDlp.Quant.SymQuantCall
import AoclDlp.Runtime.LibrarySetting
import AoclDlp.Runtime.Precedence
import AoclDlp.Threading.Barrier
import AoclDlp.Threading.CheckedWays
import AoclDlp.Threading.WorkPartition
import AoclDlp.Quant.ScaleSwap
import AoclDlp.Quant.StatusHonesty
