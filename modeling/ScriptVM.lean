import ScriptVM.Main
import ScriptVM.Session.Log
import ScriptVM.Proofs.Isolation
import ScriptVM.Proofs.HeapGrowth
import ScriptVM.Proofs.Memory
import ScriptVM.Proofs.Assembled
import ScriptVM.Proofs.Diagnostics
import ScriptVM.Proofs.Advisory
import ScriptVM.Proofs.Prescribed
import ScriptVM.Proofs.RoundTrip
import ScriptVM.Proofs.TypeSoundness
import ScriptVM.Proofs.LabelResolution
import ScriptVM.Proofs.CallProtection
import ScriptVM.Proofs.Ownership
import ScriptVM.Proofs.SingleAssignment
import ScriptVM.Proofs.FaultAtomicity
import ScriptVM.Proofs.Precedence
import ScriptVM.Proofs.TokenSpans
import ScriptVM.Proofs.Respacing
import ScriptVM.Proofs.PoolLayout
import ScriptVM.Proofs.Joining
import ScriptVM.Proofs.WholeInput
import ScriptVM.Proofs.Symbols
import ScriptVM.Proofs.RegisterUse
import ScriptVM.Proofs.NodeSpans
