import Filestick.Lib.Machine
import Filestick.Lib.Crc
import Filestick.Lib.Hdlc
import Filestick.Rtl.Fcs
import Filestick.Rtl.EconetRxPhy
import Filestick.Rtl.EconetRxBuffered
import Filestick.Rtl.EconetTx
import Filestick.Lib.Ring
import Filestick.Rtl.Equiv.EconetRxPhy
import Filestick.Rtl.Equiv.EconetRxBuffered
import Filestick.Rtl.Equiv.EconetTx
import Filestick.Rtl.Equiv.FemtoRV32
import Filestick.Rtl.FemtoRV32
import Filestick.Lib.Overlay
import Filestick.Lib.Prog
import Filestick.Lib.Simulation
import Filestick.System.Equiv.SpiFlashdev
import Filestick.System.SpiFlashdev
import Filestick.Rtl.Spi
import Filestick.System.SpiFlash
import Filestick.System.Equiv.SpiFlash
import Filestick.System.RawEconet
import Filestick.System.Equiv.EconetTransmit
import Filestick.System.Equiv.EconetDelivery
import Filestick.Rtl.Equiv.EconetRxFlags
import Filestick.Rtl.Equiv.EconetRxAddress
import Filestick.Rtl.Equiv.EconetTxWedge
import Filestick.System.Fd
import Filestick.System.Equiv.Fd
import Filestick.System.Equiv.Flashdisc
import Filestick.System.EconetIoctl
import Filestick.System.Message
import Filestick.System.Equiv.EconetFrames
import Filestick.System.Equiv.EconetTimeout
import Filestick.System.Equiv.EconetInbound
import Filestick.Lib.Ghost
import Filestick.System.Equiv.EconetPeers
import Filestick.System.EconetFd
import Filestick.System.Equiv.EconetPorts
import Filestick.Rtl.Equiv.Fcs
import Filestick.Rtl.FifoUart
import Filestick.Rtl.Equiv.FifoUart
import Filestick.Lib.ShiftRegister
import Filestick.Rtl.Equiv.Spi
import Filestick.System.Equiv.SpiExchange
import Filestick.System.Equiv.FlashMemcpy
import Filestick.System.FlashWrite
import Filestick.System.Equiv.FlashWrite
import Filestick.System.Equiv.EconetLayout
import Filestick.System.Equiv.EconetMonitor
import Filestick.System.Equiv.EconetPeek
import Filestick.System.Equiv.Message
import Filestick.System.Handles
import Filestick.System.Equiv.Handles
import Filestick.System.Equiv.FdRelease
import Filestick.Lib.Finishes
import Filestick.System.Equiv.EconetLength
import Filestick.System.Equiv.EconetChunks
import Filestick.System.Equiv.EconetReopen
import Filestick.Lib.Tokens
import Filestick.System.Strings
import Filestick.System.Elfload
import Filestick.System.Equiv.Strings
import Filestick.System.Equiv.Elfload
import Filestick.System.Equiv.ElfBounds
import Filestick.System.Equiv.ElfRun
import Filestick.System.Equiv.StackArgs
import Filestick.System.Sbrk
import Filestick.System.Equiv.Sbrk
import Filestick.System.Console
import Filestick.System.Equiv.Console
import Filestick.Lib.Poll
import Filestick.System.Diskio
import Filestick.System.Sd
import Filestick.System.Equiv.Sd
import Filestick.System.Flashdisc
import Filestick.System.Equiv.FlashTransfers
import Filestick.System.SpiBlock
import Filestick.System.Equiv.SpiBlock
import Filestick.Lib.Splice
import Filestick.System.File
import Filestick.System.Equiv.File
import Filestick.Init.Xmodem
import Filestick.Init.Equiv.Xmodem
import Filestick.Init.Cli
import Filestick.Init.Equiv.Cli
import Filestick.Fileserver.Starcmd
import Filestick.Fileserver.Equiv.Starcmd
import Filestick.Lib.Loop
import Filestick.Lib.Rv32
import Filestick.System.Memset
import Filestick.System.Equiv.Memset
import Filestick.System.Memcpy
import Filestick.System.Equiv.Memcpy
import Filestick.System.Hexdump
import Filestick.System.Equiv.Hextoint
import Filestick.Init.Peekpoke
import Filestick.Init.Equiv.Peekpoke
import Filestick.System.Equiv.Hexdump
import Filestick.System.Malloc
import Filestick.System.Equiv.Malloc
import Filestick.System.MaxFileDescriptors
import Filestick.Lib.SizeClass
import Filestick.Lib.LinkedList
import Filestick.System.Tlsf
import Filestick.System.Equiv.TlsfMapping
import Filestick.Lib.Tiling
import Filestick.System.Equiv.TlsfHeap
import Filestick.Lib.Tiling
import Filestick.System.Equiv.TlsfWords
import Filestick.System.Equiv.TlsfHeap
import Filestick.System.Equiv.TlsfLists
import Filestick.System.Equiv.TlsfBlocks
import Filestick.System.Equiv.TlsfMalloc
import Filestick.System.Equiv.TlsfRealloc
import Filestick.System.Equiv.TlsfCreate
import Filestick.System.Equiv.TlsfRun
import Filestick.System.Equiv.TlsfLimits
import Filestick.System.Equiv.TlsfCheck
import Filestick.Lib.Riscv
import Filestick.Rtl.Hart
import Filestick.Rtl.Equiv.Decompressor
import Filestick.Lib.RestoringDivision
import Filestick.Rtl.Equiv.Decode
import Filestick.Rtl.Equiv.Divider
import Filestick.Rtl.Equiv.Datapath
import Filestick.Rtl.Equiv.Hart
import Filestick.Rtl.Equiv.Instruction
import Filestick.Rtl.Equiv.Fetch
import Filestick.Rtl.Equiv.Fetch
import Filestick.Rtl.Equiv.Program
