import ResumeFromEdk2.BitField
import ResumeFromEdk2.ByteImage
import ResumeFromEdk2.PagingWalk
import ResumeFromEdk2.StepSystem
import ResumeFromEdk2.MakeRules
import ResumeFromEdk2.Regex
import ResumeFromEdk2.HexNumeral
import ResumeFromEdk2.CInteger
import ResumeFromEdk2.PyText
import ResumeFromEdk2.MemDump
import ResumeFromEdk2.MemDumpWalk
import ResumeFromEdk2.MemDumpNx
import ResumeFromEdk2.MemDumpPatch
import ResumeFromEdk2.MemDumpRepeat
import ResumeFromEdk2.SnapshotMemory
import ResumeFromEdk2.OvmfLog
import ResumeFromEdk2.RegisterScript
import ResumeFromEdk2.RegisterTokens
import ResumeFromEdk2.InfoRegisters
import ResumeFromEdk2.InstructionPointer
import ResumeFromEdk2.GeneratedCode
import ResumeFromEdk2.TranscriptCr3
import ResumeFromEdk2.StateBlobMake
import ResumeFromEdk2.SnapshotScripts
import ResumeFromEdk2.SnapshotRuns
import ResumeFromEdk2.ZzzloopTimer
import ResumeFromEdk2.CProgram
import ResumeFromEdk2.CpuStateFile
import ResumeFromEdk2.SnapshotVirtual
import ResumeFromEdk2.SnapshotSession
import ResumeFromEdk2.SessionTranscript
import ResumeFromEdk2.EndToEnd
import ResumeFromEdk2.ApicExtendedLvt
import ResumeFromEdk2.ApicCpuIds
import ResumeFromEdk2.ApicX2apic
import ResumeFromEdk2.ApicSuspend
import ResumeFromEdk2.ApicPendingIntr
import ResumeFromEdk2.ApicTimer
