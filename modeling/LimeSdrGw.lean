import LimeSdrGw.Clocked.Machine
import LimeSdrGw.Clocked.Progress
import LimeSdrGw.Clocked.Fifo
import LimeSdrGw.Clocked.Framing
import LimeSdrGw.Clocked.Registers
import LimeSdrGw.Clocked.Groups
import LimeSdrGw.Tx.Packet
import LimeSdrGw.Tx.OnePctFifo
import LimeSdrGw.Tx.PctSeparate
import LimeSdrGw.Tx.P2dWrFsm
import LimeSdrGw.Tx.P2dRd
import LimeSdrGw.Tx.Packets2data
import LimeSdrGw.Tx.Book
import LimeSdrGw.Tx.Feed
import LimeSdrGw.Tx.Carry
import LimeSdrGw.Tx.Events
import LimeSdrGw.Tx.Inv
import LimeSdrGw.Tx.WriterStep
import LimeSdrGw.Tx.SlotStep
import LimeSdrGw.Tx.ReaderStep
import LimeSdrGw.Tx.Integrity
import LimeSdrGw.Tx.Stamps
import LimeSdrGw.Tx.Progress
import LimeSdrGw.Tx.NoStall
import LimeSdrGw.Clocked.Margin
import LimeSdrGw.Tx.BitUnpack
import LimeSdrGw.Tx.SampleFifo
import LimeSdrGw.Tx.PctSamples
import LimeSdrGw.Tx.Txiq
import LimeSdrGw.Tx.Bursts
import LimeSdrGw.Tx.BurstReady
import LimeSdrGw.Tx.PctWait
import LimeSdrGw.Tx.BurstShort
import LimeSdrGw.Fw.AvFifo
import LimeSdrGw.Fw.SpiFlash
import LimeSdrGw.Fw.GwWrite
import LimeSdrGw.Fw.GwProgram
import LimeSdrGw.Fw.ImageRegion
import LimeSdrGw.Fw.FlashBusy
import LimeSdrGw.Clocked.Stream
import LimeSdrGw.Rx.BitPack
import LimeSdrGw.Rx.RoundTrip
import LimeSdrGw.Rx.Pack56
import LimeSdrGw.Tx.Unpack56
import LimeSdrGw.Rx.RoundTrip56
import LimeSdrGw.Rx.Data2Packets
import LimeSdrGw.Rx.Packing
import LimeSdrGw.Rx.Making
import LimeSdrGw.Rx.Formation
import LimeSdrGw.Rx.PacketStream
import LimeSdrGw.Rx.SmplBuff
import LimeSdrGw.Rx.Timestamp
import LimeSdrGw.Rx.RxiqSiso
import LimeSdrGw.Rx.RxiqMimo
import LimeSdrGw.Rx.Receiver
import LimeSdrGw.Rx.SampleClocks
import LimeSdrGw.Rx.Delivery
import LimeSdrGw.Rx.Frames
import LimeSdrGw.Tx.Delivery
import LimeSdrGw.RxTx.TestSignals
import LimeSdrGw.RxTx.Loopback
import LimeSdrGw.Rx.SmplCmp
import LimeSdrGw.RxTx.PatternCheck
import LimeSdrGw.Wfm.WcmdFsm
import LimeSdrGw.Wfm.RcmdFsm
import LimeSdrGw.Wfm.PctPayload
import LimeSdrGw.Wfm.Load
import LimeSdrGw.Wfm.Ddr2Arb
import LimeSdrGw.Wfm.Arbitration
import LimeSdrGw.Pll.PsFsm
import LimeSdrGw.Nios.SpiMaster
import LimeSdrGw.Nios.SpiByte
import LimeSdrGw.Nios.SpiCommand
import LimeSdrGw.Nios.SpiTransfer
import LimeSdrGw.Nios.SpiStages
import LimeSdrGw.Nios.SpiRun
import LimeSdrGw.Nios.RegisterSlave
import LimeSdrGw.Nios.NiosCpu
import LimeSdrGw.Nios.FpgaRegisters
import LimeSdrGw.Nios.RegisterPackets
import LimeSdrGw.Pll.PhaseSearch
import LimeSdrGw.Pll.SearchEnds
import LimeSdrGw.Pll.PllPs
import LimeSdrGw.Pll.PhaseSteps
import LimeSdrGw.Pll.PllTop
import LimeSdrGw.Pll.Status
import LimeSdrGw.Spi.Registers
import LimeSdrGw.Wfm.Decompress
import LimeSdrGw.Wfm.SampleFormat
import LimeSdrGw.Wfm.Decoding
import LimeSdrGw.Clocked.Repeats
import LimeSdrGw.Wfm.Playback
import LimeSdrGw.Wfm.RdTxFifo
import LimeSdrGw.Clocked.Shift
import LimeSdrGw.Spi.CfgTop
import LimeSdrGw.Spi.RegisterFile
import LimeSdrGw.Spi.Periphcfg
import LimeSdrGw.Effect.Proc
import LimeSdrGw.Fw.Board
import LimeSdrGw.Fw.Commands
import LimeSdrGw.Fw.Bounds
import LimeSdrGw.Fw.Completion
import LimeSdrGw.Fw.McuUpload
import LimeSdrGw.Fw.Responses
import LimeSdrGw.RxTx.LossReport
